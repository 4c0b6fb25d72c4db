import LoxLang.Token.Scan

/-! How scanned words are spelled: the text of a reserved word is its spelling, and the text of an
identifier is no reserved word's. -/
namespace LoxLang

/-- The text of a word fits its kind. -/
def Token.Fitting (t : Token) : Prop :=
  match t.kind with
  | .keyword k => t.lexeme = k.spelling
  | .identifier => ∀ k : Keyword, t.lexeme ≠ k.spelling
  | _ => True

/-- The text is no reserved word. -/
def Token.Unreserved (t : Token) : Prop := ∀ k : Keyword, t.lexeme ≠ k.spelling

theorem Token.Fitting.word {t : Token} {k : Keyword} (fitting : t.Fitting)
    (kind : t.kind = .keyword k) : t.lexeme = k.spelling := by
  simpa only [Token.Fitting, kind] using fitting

theorem Token.Fitting.name {t : Token} (fitting : t.Fitting) (kind : t.kind = .identifier)
    (k : Keyword) : t.lexeme ≠ k.spelling := by
  simp only [Token.Fitting, kind] at fitting
  exact fitting k

theorem Keyword.spelling_of_found {word : String} {k : Keyword}
    (found : Keyword.ofSpelling? word = some k) : word = k.spelling := by
  have same := List.find?_some found
  exact (beq_iff_eq.mp same).symm

theorem Keyword.spelling_ne_of_none {word : String} (absent : Keyword.ofSpelling? word = none)
    (k : Keyword) : word ≠ k.spelling := by
  rintro rfl
  have differs := List.find?_eq_none.mp absent k k.mem_all
  simp at differs

namespace Scan

variable {c : Char} {text : List Char} {kind : Token.Kind} {line : Nat}

theorem wordPiece_fitting (found : (wordPiece c text).found = .token kind) :
    Token.Fitting ⟨kind, String.ofList (wordPiece c text).consumed, line⟩ := by
  simp only [wordPiece, Found.token.injEq] at found ⊢
  split at found
  · next reserved =>
    subst found
    exact Keyword.spelling_of_found reserved
  · next free =>
    subst found
    exact Keyword.spelling_ne_of_none free

/-- Only words are of a kind whose text is fixed. -/
theorem singlePiece_symbol (found : (singlePiece c text).found = .token kind) :
    ∃ s, kind = .symbol s := by
  unfold singlePiece at found
  split at found
  · next s _ => exact ⟨s, (Found.token.inj found).symm⟩
  · cases found

theorem symbolPiece_symbol (found : (symbolPiece c text).found = .token kind) :
    ∃ s, kind = .symbol s := by
  unfold symbolPiece at found
  split at found
  · split at found
    · next s _ => exact ⟨s, (Found.token.inj found).symm⟩
    · exact singlePiece_symbol found
  · exact singlePiece_symbol found

theorem stringPiece_string (found : (stringPiece text).found = .token kind) :
    ∃ inside, kind = .string inside := by
  unfold stringPiece at found
  dsimp only at found
  split at found
  · exact ⟨_, (Found.token.inj found).symm⟩
  · cases found

theorem numberPiece_number (found : (numberPiece c text).found = .token kind) :
    ∃ value, kind = .number value := by
  unfold numberPiece at found
  dsimp only at found
  split at found
  · split at found <;> exact ⟨_, (Found.token.inj found).symm⟩
  · exact ⟨_, (Found.token.inj found).symm⟩

theorem piece_fitting (found : (piece c text).found = .token kind) :
    Token.Fitting ⟨kind, String.ofList (piece c text).consumed, line⟩ := by
  unfold piece at found ⊢
  split at found
  · cases found
  · next unblank =>
    rw [if_neg unblank]
    split at found
    · cases found
    · next uncommented =>
      rw [if_neg uncommented]
      split at found
      · unfold blockComment at found
        split at found <;> cases found
      · next open_ =>
        rw [if_neg open_]
        split at found
        · obtain ⟨inside, rfl⟩ := stringPiece_string found
          trivial
        · next unquoted =>
          rw [if_neg unquoted]
          split at found
          · obtain ⟨value, rfl⟩ := numberPiece_number found
            trivial
          · next other =>
            rw [if_neg other]
            split at found
            · next starts =>
              rw [if_pos starts]
              exact wordPiece_fitting found
            · obtain ⟨s, rfl⟩ := symbolPiece_symbol found
              trivial

theorem next_fitting {s after : Scan} {t : Token} (given : s.next? = some (.token t, after)) :
    t.Fitting := by
  fun_induction next? s with
  | case1 => cases given
  | case2 s open_ nothing =>
    cases given
    trivial
  | case3 s open_ c text ahead p rest blank ih => exact ih given
  | case4 s open_ c text ahead p rest kind found =>
    simp only [Option.some.injEq, Prod.mk.injEq, Item.token.injEq] at given
    rw [← given.1]
    exact piece_fitting found
  | case5 s open_ c text ahead p rest cause => cases given

theorem items_fitting {s : Scan} {t : Token} (member : .token t ∈ s.items) : t.Fitting := by
  fun_induction items s with
  | case1 => cases member
  | case2 s item after given ih =>
    obtain rfl | later := List.mem_cons.mp member
    · exact next_fitting given
    · exact ih later

end Scan

/-- Every scanned word is spelled as its kind says. -/
theorem scan_fitting (source : String) : ∀ t ∈ (scan source).1, t.Fitting := by
  intro t member
  obtain ⟨item, among, same⟩ := List.mem_filterMap.mp member
  cases item with
  | token found =>
    cases same
    exact Scan.items_fitting among
  | fault e => cases same

end LoxLang
