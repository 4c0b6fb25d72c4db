import LoxLang.Token.Scan

/-! Text as bytes. A character of ASCII is one byte; the bytes of any other character are none of
ASCII's. So what is searched for among the bytes of a text, an ASCII character, is found where the
character is, and a search never ends inside a character. -/
namespace LoxLang.Text

/-- The bytes of some characters. -/
def bytes (cs : List Char) : List UInt8 := cs.flatMap String.utf8EncodeChar

@[simp] theorem bytes_nil : bytes [] = [] := rfl

theorem bytes_cons (c : Char) (cs : List Char) : bytes (c :: cs) = String.utf8EncodeChar c ++ bytes cs :=
  rfl

@[simp] theorem bytes_append (cs ds : List Char) : bytes (cs ++ ds) = bytes cs ++ bytes ds :=
  List.flatMap_append

theorem toByteArray_ofList (cs : List Char) : (String.ofList cs).toByteArray = (bytes cs).toByteArray :=
  String.toByteArray_ofList

theorem toByteArray_eq (s : String) : s.toByteArray = (bytes s.toList).toByteArray :=
  String.utf8Encode_toList.symm

theorem bytes_injective {cs ds : List Char} (same : bytes cs = bytes ds) : cs = ds := by
  have arrays : (String.ofList cs).toByteArray = (String.ofList ds).toByteArray := by
    rw [toByteArray_ofList, toByteArray_ofList, same]
  exact String.ofList_injective (String.toByteArray_inj.mp arrays)

/-- The byte of an ASCII character. -/
theorem encode_ascii {c : Char} (ascii : c.toNat < 128) : String.utf8EncodeChar c = [c.toUInt8] := by
  have small : c.val.toNat ≤ 0x7f := Nat.le_of_lt_succ ascii
  unfold String.utf8EncodeChar
  rw [if_pos small]
  rfl

/-- A byte that is marked by its upper bits is none of ASCII's. -/
theorem marked_wide (bits : Nat) {room mark : Nat} (some : 0 < room) (high : 128 ≤ mark)
    (fits : room + mark ≤ 256) : 128 ≤ (UInt8.ofNat (bits % room + mark)).toNat := by
  have small : bits % room < room := Nat.mod_lt bits some
  have byte : bits % room + mark < 2 ^ 8 := by omega
  rw [UInt8.toNat_ofNat_of_lt' byte]
  omega

/-- The bytes of any other character are none of ASCII's. -/
theorem encode_wide {c : Char} (wide : 128 ≤ c.toNat) :
    ∀ b ∈ String.utf8EncodeChar c, 128 ≤ b.toNat := by
  have large : ¬ c.val.toNat ≤ 0x7f := Nat.not_le_of_lt wide
  unfold String.utf8EncodeChar
  rw [if_neg large]
  intro b member
  -- two, three or four bytes
  split at member
  · simp only [List.mem_cons, List.not_mem_nil, or_false] at member
    obtain rfl | rfl := member
    all_goals exact marked_wide _ (by decide) (by decide) (by decide)
  split at member
  · simp only [List.mem_cons, List.not_mem_nil, or_false] at member
    obtain rfl | rfl | rfl := member
    all_goals exact marked_wide _ (by decide) (by decide) (by decide)
  · simp only [List.mem_cons, List.not_mem_nil, or_false] at member
    obtain rfl | rfl | rfl | rfl := member
    all_goals exact marked_wide _ (by decide) (by decide) (by decide)

theorem ascii_byte {c : Char} (ascii : c.toNat < 128) : c.toUInt8.toNat = c.toNat := by
  have low : c.toNat % 2 ^ 8 = c.toNat := Nat.mod_eq_of_lt (by omega)
  rw [Char.toUInt8, UInt32.toNat_toUInt8]
  exact low

/-- A byte of a character is an ASCII character's, or none of ASCII's. -/
theorem byte_cases {c : Char} {b : UInt8} (member : b ∈ String.utf8EncodeChar c) :
    (c.toNat < 128 ∧ b.toNat = c.toNat) ∨ (128 ≤ c.toNat ∧ 128 ≤ b.toNat) := by
  by_cases ascii : c.toNat < 128
  · rw [encode_ascii ascii, List.mem_singleton] at member
    exact .inl ⟨ascii, member ▸ ascii_byte ascii⟩
  · have wide := Nat.le_of_not_lt ascii
    exact .inr ⟨wide, encode_wide wide b member⟩

/-- A byte of a character is that of an ASCII character only if it is that character. -/
theorem byte_eq_iff {c d : Char} (ascii : d.toNat < 128) {b : UInt8}
    (member : b ∈ String.utf8EncodeChar c) : b = d.toUInt8 ↔ c = d := by
  rw [← UInt8.toNat_inj, ascii_byte ascii, ← Char.toNat_inj]
  have cases := byte_cases member
  omega

/-- A run of bytes that is told by the characters ends with a character. -/
theorem takeWhile_bytes {kept : UInt8 → Bool} {keeps : Char → Bool}
    (agree : ∀ c, ∀ b ∈ String.utf8EncodeChar c, kept b = keeps c) (cs : List Char) :
    (bytes cs).takeWhile kept = bytes (cs.takeWhile keeps) := by
  induction cs with
  | nil => rfl
  | cons c cs ih =>
    rw [bytes_cons]
    cases keep : keeps c with
    | true =>
      have all : ∀ b ∈ String.utf8EncodeChar c, kept b = true := fun b member =>
        (agree c b member).trans keep
      rw [List.takeWhile_append_of_pos all, ih, List.takeWhile_cons_of_pos keep, bytes_cons]
    | false =>
      rw [List.takeWhile_cons_of_neg (by rw [keep]; exact Bool.false_ne_true)]
      cases encoded : String.utf8EncodeChar c with
      | nil => exact absurd encoded String.utf8EncodeChar_ne_nil
      | cons b rest =>
        have stops : kept b = false := (agree c b (encoded ▸ List.mem_cons_self)).trans keep
        rw [List.cons_append, List.takeWhile_cons_of_neg (by rw [stops]; exact Bool.false_ne_true)]
        rfl

/-- An ASCII character occurs among the bytes as often as among the characters. -/
theorem count_bytes {d : Char} (ascii : d.toNat < 128) (cs : List Char) :
    (bytes cs).count d.toUInt8 = cs.count d := by
  induction cs with
  | nil => rfl
  | cons c cs ih =>
    rw [bytes_cons, List.count_append, ih, List.count_cons, Nat.add_comm]
    by_cases same : c = d
    · rw [same, encode_ascii ascii, List.count_singleton_self, beq_self_eq_true, if_pos rfl]
    · have absent : d.toUInt8 ∉ String.utf8EncodeChar c := fun member =>
        same ((byte_eq_iff ascii member).mp rfl)
      rw [List.count_eq_zero.mpr absent, beq_false_of_ne same, if_neg Bool.false_ne_true]

/-- An ASCII character begins the bytes if it begins the characters. -/
theorem head?_bytes {d : Char} (ascii : d.toNat < 128) (cs : List Char) :
    (bytes cs).head? = some d.toUInt8 ↔ cs.head? = some d := by
  cases cs with
  | nil => simp
  | cons c cs =>
    rw [bytes_cons]
    cases encoded : String.utf8EncodeChar c with
    | nil => exact absurd encoded String.utf8EncodeChar_ne_nil
    | cons b rest =>
      have first : b ∈ String.utf8EncodeChar c := encoded ▸ List.mem_cons_self
      simp only [List.cons_append, List.head?_cons, Option.some.injEq]
      exact byte_eq_iff ascii first

/-- The bytes of a character are of a sort of ASCII characters if it is. -/
theorem kept_iff {keeps : Char → Bool} (narrow : ∀ c, 128 ≤ c.toNat → keeps c = false) :
    ∀ c, ∀ b ∈ String.utf8EncodeChar c, keeps (Char.ofUInt8 b) = keeps c := by
  intro c b member
  have value : (Char.ofUInt8 b).toNat = b.toNat := rfl
  obtain ⟨_, same⟩ | ⟨wide, wide'⟩ := byte_cases member
  · rw [Char.toNat_inj.mp (value.trans same)]
  · rw [narrow c wide, narrow _ (value ▸ wide')]

/-- The byte ahead is of a sort of ASCII characters if there is a character ahead that is. -/
theorem kept_headD {keeps : Char → Bool} (narrow : ∀ c, 128 ≤ c.toNat → keeps c = false)
    (stops : keeps (Char.ofUInt8 0) = false) (cs : List Char) :
    keeps (Char.ofUInt8 ((bytes cs).headD 0)) = cs.head?.any keeps := by
  cases cs with
  | nil => exact stops
  | cons c cs =>
    rw [bytes_cons]
    cases encoded : String.utf8EncodeChar c with
    | nil => exact absurd encoded String.utf8EncodeChar_ne_nil
    | cons b rest => exact kept_iff narrow c b (encoded ▸ List.mem_cons_self)

theorem headD_bytes {d : Char} (ascii : d.toNat < 128) (nonzero : d.toUInt8 ≠ 0) (cs : List Char) :
    (bytes cs).headD 0 = d.toUInt8 ↔ cs.head? = some d := by
  rw [← head?_bytes ascii]
  cases bytes cs with
  | nil => simpa using nonzero.symm
  | cons b rest => simp

/-- A byte differs from that of an ASCII character if its character differs from this one. -/
theorem differs_iff {d : Char} (ascii : d.toNat < 128) :
    ∀ c, ∀ b ∈ String.utf8EncodeChar c, decide (b ≠ d.toUInt8) = decide (c ≠ d) := by
  intro c b member
  rw [decide_eq_decide, ne_eq, ne_eq, byte_eq_iff ascii member]

theorem bytes_single {d : Char} (ascii : d.toNat < 128) (cs : List Char) :
    bytes (d :: cs) = d.toUInt8 :: bytes cs := by
  rw [bytes_cons, encode_ascii ascii, List.singleton_append]

/-- A search for a byte passes all bytes that are others. -/
theorem findIdx?_getD (d : UInt8) (l : List UInt8) :
    (l.findIdx? (· = d)).getD l.length = (l.takeWhile (· ≠ d)).length := by
  induction l with
  | nil => rfl
  | cons b rest ih =>
    by_cases same : b = d
    · simp [List.findIdx?_cons, same]
    · cases found : rest.findIdx? (· = d) <;> rw [found] at ih <;>
        simpa [List.findIdx?_cons, same, found] using ih

/-- The bytes between two characters are those of the characters in between. -/
theorem extract_bytes (front middle ahead : List Char) :
    (bytes (front ++ (middle ++ ahead))).toByteArray.extract (bytes front).length
      (bytes (front ++ middle)).length = (bytes middle).toByteArray := by
  ext1
  rw [ByteArray.data_extract, List.data_toByteArray, List.data_toByteArray, List.extract_toArray,
    List.extract_eq_take_drop, bytes_append front middle, bytes_append front (middle ++ ahead),
    List.drop_left, List.length_append, Nat.add_sub_cancel_left, bytes_append middle ahead,
    List.take_left]

/-- Where the needle first occurs, counted in bytes. -/
def find? (needle : List UInt8) : List UInt8 → Option Nat
  | [] => if needle = [] then some 0 else none
  | b :: rest => if needle <+: b :: rest then some 0 else (find? needle rest).map (· + 1)

/-- A needle is not found among bytes that it does not begin with. -/
theorem find?_append {first : UInt8} {needle passed : List UInt8} (absent : first ∉ passed)
    (rest : List UInt8) :
    find? (first :: needle) (passed ++ rest) = (find? (first :: needle) rest).map (passed.length + ·) := by
  induction passed with
  | nil => simp
  | cons b passed ih =>
    obtain ⟨other, absent⟩ := not_or.mp (mt List.mem_cons.mpr absent)
    have apart : ¬ first :: needle <+: b :: (passed ++ rest) := fun prefixed =>
      other (List.cons_prefix_cons.mp prefixed).1
    rw [List.cons_append, find?, if_neg apart, ih absent, Option.map_map]
    congr 1
    funext i
    simp only [Function.comp_apply, List.length_cons]
    omega

end LoxLang.Text
