/-! Forms: words, and groups in parentheses of a head and its parts, each part behind a space. However a text
goes on behind a form, no other form can be read at its front. -/
namespace LoxLang

/-- A word, or a group of a head word and parts. -/
inductive Form where
  | word (text : List Char)
  | group (head : List Char) (parts : List Form)

namespace Form

/-- The characters between words. -/
def isDelimiter (c : Char) : Bool := c = ' ' || c = '(' || c = ')'

/-- A text that is one word. -/
structure IsWord (text : List Char) : Prop where
  nonempty : text ≠ []
  unbroken : ∀ c ∈ text, isDelimiter c = false

theorem IsWord.of_all {w : List Char} (nonempty : w ≠ []) (all : (w.all (!isDelimiter ·)) = true) :
    IsWord w :=
  ⟨nonempty, fun c member => by simpa using List.all_eq_true.mp all c member⟩

/-- A text of characters among which there are no delimiters is one word. -/
theorem IsWord.of_chars {w : List Char} {keeps : Char → Bool} (nonempty : w ≠ [])
    (all : ∀ c ∈ w, keeps c = true) (apart : [' ', '(', ')'].any keeps = false) : IsWord w := by
  refine ⟨nonempty, fun c member => ?_⟩
  rw [← Bool.not_eq_true]
  intro delimits
  have among : c ∈ [' ', '(', ')'] := by
    simpa [isDelimiter, or_assoc] using delimits
  exact List.any_eq_false.mp apart c among (all c member)

/-- Where a word ends: at the end of the text, or before a delimiter. -/
def EndsWord (rest : List Char) : Prop := ∀ c, rest.head? = some c → isDelimiter c = true

mutual

def text : Form → List Char
  | .word text => text
  | .group head parts => '(' :: (head ++ partsText parts)

/-- The parts of a group, each behind a space, and the closing parenthesis. -/
def partsText : List Form → List Char
  | [] => [')']
  | part :: rest => ' ' :: (part.text ++ partsText rest)

end

mutual

/-- All words of the form are words. -/
def Wordy : Form → Prop
  | .word text => IsWord text
  | .group head parts => IsWord head ∧ AllWordy parts

def AllWordy : List Form → Prop
  | [] => True
  | part :: rest => part.Wordy ∧ AllWordy rest

end

variable {w w' rest rest' : List Char}

theorem EndsWord.cons {c : Char} (delimits : isDelimiter c = true) : EndsWord (c :: rest) := by
  rintro d ⟨⟩
  exact delimits

theorem endsWord_partsText (parts : List Form) : EndsWord (partsText parts ++ rest) := by
  cases parts with
  | nil => exact .cons (by decide)
  | cons => exact .cons (by decide)

/-- A word is all that comes before a delimiter. -/
theorem IsWord.takeWhile (word : IsWord w) (ends : EndsWord rest) :
    (w ++ rest).takeWhile (fun c => !isDelimiter c) = w := by
  have within : ∀ c ∈ w, (!isDelimiter c) = true := fun c member => by rw [word.unbroken c member]; rfl
  rw [List.takeWhile_append_of_pos within]
  cases rest with
  | nil => exact List.append_nil w
  | cons c rest => rw [List.takeWhile_cons_of_neg (by rw [ends c rfl]; decide), List.append_nil]

theorem IsWord.unique (word : IsWord w) (word' : IsWord w') (ends : EndsWord rest) (ends' : EndsWord rest')
    (same : w ++ rest = w' ++ rest') : w = w' ∧ rest = rest' := by
  have own := word.takeWhile ends
  rw [same, word'.takeWhile ends'] at own
  obtain rfl := own
  exact ⟨rfl, List.append_cancel_left same⟩

/-- A word does not begin with a parenthesis. -/
theorem IsWord.ne_group (word : IsWord w) (inside : List Char) : w ++ rest ≠ '(' :: inside := by
  intro same
  cases w with
  | nil => exact word.nonempty rfl
  | cons c w =>
    obtain ⟨rfl, -⟩ := List.cons.inj same
    exact absurd (word.unbroken '(' List.mem_cons_self) (by decide)

mutual

/-- At the front of a text there is one form only. -/
theorem text_unique : ∀ {p q : Form} {rest rest' : List Char}, p.Wordy → q.Wordy → EndsWord rest →
    EndsWord rest' → p.text ++ rest = q.text ++ rest' → p = q ∧ rest = rest'
  | .word _, .word _, _, _, single, single', ends, ends', same => by
    obtain ⟨rfl, others⟩ := IsWord.unique single single' ends ends' same
    exact ⟨rfl, others⟩
  | .word _, .group _ _, _, _, single, _, _, _, same => absurd same (IsWord.ne_group single _)
  | .group _ _, .word _, _, _, _, single, _, _, same => absurd same.symm (IsWord.ne_group single _)
  | .group head parts, .group head' parts', _, _, ⟨single, wordy⟩, ⟨single', wordy'⟩, _, _, same => by
    simp only [text, List.cons_append, List.append_assoc, List.cons.injEq, true_and] at same
    obtain ⟨rfl, inside⟩ :=
      single.unique single' (endsWord_partsText parts) (endsWord_partsText parts') same
    obtain ⟨rfl, others⟩ := partsText_unique wordy wordy' inside
    exact ⟨rfl, others⟩

theorem partsText_unique : ∀ {ps qs : List Form} {rest rest' : List Char}, AllWordy ps → AllWordy qs →
    partsText ps ++ rest = partsText qs ++ rest' → ps = qs ∧ rest = rest'
  | [], [], _, _, _, _, same => ⟨rfl, (List.cons.inj same).2⟩
  | [], _ :: _, _, _, _, _, same => absurd (List.cons.inj same).1 (by decide)
  | _ :: _, [], _, _, _, _, same => absurd (List.cons.inj same).1 (by decide)
  | p :: ps, q :: qs, _, _, ⟨wordy, others⟩, ⟨wordy', others'⟩, same => by
    simp only [partsText, List.cons_append, List.append_assoc, List.cons.injEq, true_and] at same
    obtain ⟨rfl, inside⟩ :=
      text_unique wordy wordy' (endsWord_partsText ps) (endsWord_partsText qs) same
    obtain ⟨rfl, rests⟩ := partsText_unique others others' inside
    exact ⟨rfl, rests⟩

end

end Form

end LoxLang
