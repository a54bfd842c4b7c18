import Bitwire.Text.Rune

/-! How `runes` takes bytes apart, said without decoding: at each place either the encoding of a
character stands there, or no encoding does and one byte is stray. -/
namespace Bitwire.Text

open String (utf8EncodeChar)

def encodeChars (cs : List Char) : Bytes := cs.flatMap utf8EncodeChar

@[simp] theorem encodeChars_nil : encodeChars [] = [] := rfl

@[simp] theorem encodeChars_cons (c : Char) (cs : List Char) :
    encodeChars (c :: cs) = utf8EncodeChar c ++ encodeChars cs := rfl

/-- No character stands at the head of the bytes. -/
def Undecodable (s : Bytes) : Prop := ∀ c rest, s ≠ utf8EncodeChar c ++ rest

/-- No character of a class stands at the head of the bytes. -/
def NotNext (p : Char → Bool) (s : Bytes) : Prop :=
  ∀ c rest, s = utf8EncodeChar c ++ rest → p c = false

/-! ## One rune -/

theorem first_of_encodeChar {c : Char} {b : UInt8} {s rest : Bytes}
    (h : b :: rest = utf8EncodeChar c ++ s) : Rune.first b rest = .scalar c := by
  have hlen : (utf8EncodeChar c).length ≤ 4 := by
    rw [String.length_utf8EncodeChar]
    exact c.utf8Size_le_four
  have htake : b :: rest.take 3 = utf8EncodeChar c ++ s.take (4 - (utf8EncodeChar c).length) := by
    rw [← List.take_succ_cons, h, List.take_append, List.take_of_length_le hlen]
  have hd : (b :: rest.take 3).toByteArray.utf8DecodeChar? 0 = some c := by
    rw [htake, List.toByteArray_append]
    exact ByteArray.utf8DecodeChar?_utf8EncodeChar_append
  simp only [Rune.first, hd]

theorem first_of_undecodable {b : UInt8} {rest : Bytes} (h : Undecodable (b :: rest)) :
    Rune.first b rest = .stray b := by
  have hp := Rune.isPrefix_bytes_first b rest
  unfold Rune.first at hp ⊢
  split
  · next c hc =>
    rw [hc] at hp
    obtain ⟨tail, ht⟩ := hp
    exact absurd ht.symm (h c tail)
  · rfl

theorem runes_cons (b : UInt8) (rest : Bytes) :
    runes (b :: rest) = Rune.first b rest :: runes (rest.drop ((Rune.first b rest).width - 1)) :=
  pieces_cons _ _ b rest

@[simp] theorem runes_nil : runes [] = [] := rfl

theorem runes_encodeChar_append (c : Char) (s : Bytes) :
    runes (utf8EncodeChar c ++ s) = .scalar c :: runes s := by
  obtain ⟨b, tail, hc⟩ := List.exists_cons_of_ne_nil (String.utf8EncodeChar_ne_nil (c := c))
  have hf : Rune.first b (tail ++ s) = .scalar c :=
    first_of_encodeChar (by rw [hc, List.cons_append])
  rw [hc, List.cons_append, runes_cons, hf]
  simp [Rune.width, Rune.bytes, hc]

theorem runes_encodeChar (c : Char) : runes (utf8EncodeChar c) = [.scalar c] := by
  simpa using runes_encodeChar_append c []

theorem runes_of_undecodable {b : UInt8} {s : Bytes} (h : Undecodable (b :: s)) :
    runes (b :: s) = .stray b :: runes s := by
  rw [runes_cons, first_of_undecodable h]
  rfl

/-- Encodings are told apart by their beginnings. -/
theorem encodeChar_append_inj {c d : Char} {s t : Bytes}
    (h : utf8EncodeChar c ++ s = utf8EncodeChar d ++ t) : c = d ∧ s = t := by
  have hr := congrArg runes h
  rw [runes_encodeChar_append, runes_encodeChar_append] at hr
  obtain rfl : c = d := by
    injection hr with hc
    injection hc
  exact ⟨rfl, List.append_cancel_left h⟩

/-! ## Induction along the runes -/

theorem exists_char_or_undecodable (s : Bytes) :
    (∃ c rest, s = utf8EncodeChar c ++ rest) ∨ Undecodable s := by
  by_cases h : ∃ c rest, s = utf8EncodeChar c ++ rest
  · exact Or.inl h
  · exact Or.inr fun c rest hs => h ⟨c, rest, hs⟩

@[elab_as_elim] theorem rune_induction {motive : Bytes → Prop} (nil : motive [])
    (char : ∀ c s, motive s → motive (utf8EncodeChar c ++ s))
    (stray : ∀ b s, Undecodable (b :: s) → motive s → motive (b :: s)) (s : Bytes) : motive s := by
  induction h : s.length using Nat.strongRecOn generalizing s with
  | ind n ih =>
    rcases exists_char_or_undecodable s with ⟨c, rest, rfl⟩ | hu
    · have hpos : 0 < (utf8EncodeChar c).length :=
        List.length_pos_iff.mpr String.utf8EncodeChar_ne_nil
      exact char c rest (ih rest.length (by rw [← h, List.length_append]; omega) rest rfl)
    · cases s with
      | nil => exact nil
      | cons b s => exact stray b s hu (ih s.length (by rw [← h]; simp) s rfl)

theorem runes_encodeChars_append (cs : List Char) (s : Bytes) :
    runes (encodeChars cs ++ s) = cs.map .scalar ++ runes s := by
  induction cs with
  | nil => rfl
  | cons c cs ih => simp [runes_encodeChar_append, ih]

theorem runes_encodeChars (cs : List Char) : runes (encodeChars cs) = cs.map .scalar := by
  simpa using runes_encodeChars_append cs []

theorem encode_scalars (cs : List Char) : encode (cs.map Rune.scalar) = encodeChars cs := by
  simp only [encode, encodeChars, List.flatMap_map]
  rfl

/-- The longest run of characters of a class at the head of the bytes. -/
theorem exists_span (p : Char → Bool) (s : Bytes) :
    ∃ cs rest, s = encodeChars cs ++ rest ∧ (∀ c ∈ cs, p c = true) ∧ NotNext p rest := by
  induction s using rune_induction with
  | nil => exact ⟨[], [], rfl, by simp, fun c rest h => by simp at h⟩
  | char c s ih =>
    by_cases hc : p c = true
    · obtain ⟨cs, rest, rfl, hcs, hn⟩ := ih
      exact ⟨c :: cs, rest, by simp, by simpa [hc] using hcs, hn⟩
    · refine ⟨[], _, rfl, by simp, fun d rest h => ?_⟩
      rw [← (encodeChar_append_inj h).1]
      simpa using hc
  | stray b s hu _ => exact ⟨[], b :: s, rfl, by simp, fun c rest h => absurd h (hu c rest)⟩

theorem head?_runes_eq_scalar {s : Bytes} {c : Char} (h : (runes s).head? = some (.scalar c)) :
    ∃ rest, s = utf8EncodeChar c ++ rest := by
  induction s using rune_induction with
  | nil => cases h
  | char d s _ =>
    rw [runes_encodeChar_append] at h
    cases h
    exact ⟨s, rfl⟩
  | stray b s hu _ =>
    rw [runes_of_undecodable hu] at h
    cases h

/-- A run of characters of a class that nothing of the class follows is what `takeWhile` takes. -/
theorem takeWhile_runes {p : Char → Bool} {q : Rune → Bool} (hq : ∀ c, q (.scalar c) = p c)
    (hs : ∀ b, q (.stray b) = false) {cs : List Char} (hcs : ∀ c ∈ cs, p c = true) {rest : Bytes}
    (hn : NotNext p rest) : (cs.map Rune.scalar ++ runes rest).takeWhile q = cs.map .scalar := by
  have hrest : (runes rest).takeWhile q = [] := by
    induction rest using rune_induction with
    | nil => rfl
    | char c s _ => simp [runes_encodeChar_append, hq, hn c s rfl]
    | stray b s hu _ => simp [runes_of_undecodable hu, hs]
  rw [List.takeWhile_append_of_pos, hrest, List.append_nil]
  intro r hr
  obtain ⟨c, hc, rfl⟩ := List.mem_map.mp hr
  rw [hq, hcs c hc]

/-! ## ASCII bytes stand for themselves -/

theorem le_continuation (n : Nat) : (0x80 : UInt8) ≤ UInt8.ofNat (n % 0x40 + 0x80) := by
  rw [UInt8.le_iff_toNat_le, UInt8.toNat_ofNat_of_lt' (by simp [UInt8.size]; omega)]
  exact Nat.le_add_left 0x80 (n % 0x40)

theorem le_of_mem_tail_encodeChar {c : Char} {b : UInt8} {tail : List UInt8}
    (h : utf8EncodeChar c = b :: tail) : ∀ x ∈ tail, 0x80 ≤ x := by
  have hk := le_continuation
  revert h
  fun_cases utf8EncodeChar with
  | case1 =>
    rintro ⟨-, rfl⟩
    simp
  | case2 | case3 | case4 =>
    rintro ⟨-, rfl⟩
    simp only [List.forall_mem_cons, hk, List.not_mem_nil, false_implies, implies_true, and_self]

/-- Bytes are read the same whatever ASCII text follows them. -/
theorem runes_append_ascii (s : Bytes) {after : Bytes} (h : ∀ b ∈ after.head?, b < 0x80) :
    runes (s ++ after) = runes s ++ runes after := by
  induction s using rune_induction with
  | nil => rfl
  | char c s ih => rw [List.append_assoc, runes_encodeChar_append, ih, runes_encodeChar_append]; rfl
  | stray b s hu ih =>
    have hu' : Undecodable (b :: (s ++ after)) := by
      intro c rest hc
      rcases List.append_eq_append_iff.mp ((List.cons_append ..).trans hc) with
        ⟨tail, ht, ha⟩ | ⟨tail, ht, -⟩
      · cases tail with
        | nil => exact hu c [] (by simpa using ht.symm)
        | cons x tail =>
          have hx : 0x80 ≤ x := le_of_mem_tail_encodeChar ht x (by simp)
          have hlt : x < 0x80 := h x (by simp [ha])
          exact absurd hlt (UInt8.not_lt.mpr hx)
      · exact hu c tail ht
    rw [List.cons_append, runes_of_undecodable hu', runes_of_undecodable hu, ih]
    rfl

theorem runes_append_newline (s after : Bytes) :
    runes (s ++ newline :: after) = runes s ++ .scalar '\n' :: runes after := by
  rw [runes_append_ascii s (by simp [newline]), ← runes_encodeChar_append '\n' after]
  rfl

/-! ## Boundaries -/

/-- An offset that reading the bytes rune by rune gets to. -/
inductive Boundary : Bytes → Nat → Prop
  | zero {s : Bytes} : Boundary s 0
  | char {c : Char} {s : Bytes} {n : Nat} :
      Boundary s n → Boundary (utf8EncodeChar c ++ s) ((utf8EncodeChar c).length + n)
  | stray {b : UInt8} {s : Bytes} {n : Nat} :
      Undecodable (b :: s) → Boundary s n → Boundary (b :: s) (n + 1)

theorem length_encode_cons (r : Rune) (rs : List Rune) :
    (encode (r :: rs)).length = r.bytes.length + (encode rs).length := by
  rw [encode, List.flatMap_cons, List.length_append]
  rfl

theorem boundary_iff {s : Bytes} {n : Nat} :
    Boundary s n ↔ ∃ k, n = (encode ((runes s).take k)).length := by
  constructor
  · intro h
    induction h with
    | zero => exact ⟨0, rfl⟩
    | char _ ih =>
      obtain ⟨k, rfl⟩ := ih
      refine ⟨k + 1, ?_⟩
      rw [runes_encodeChar_append, List.take_succ_cons, length_encode_cons]
      rfl
    | stray hu _ ih =>
      obtain ⟨k, rfl⟩ := ih
      refine ⟨k + 1, ?_⟩
      rw [runes_of_undecodable hu, List.take_succ_cons, length_encode_cons, Nat.add_comm]
      rfl
  · rintro ⟨k, rfl⟩
    induction s using rune_induction generalizing k with
    | nil =>
      rw [runes_nil, List.take_nil]
      exact .zero
    | char c s ih =>
      cases k with
      | zero => exact .zero
      | succ k =>
        rw [runes_encodeChar_append, List.take_succ_cons, length_encode_cons]
        exact .char (ih k)
    | stray b s hu ih =>
      cases k with
      | zero => exact .zero
      | succ k =>
        rw [runes_of_undecodable hu, List.take_succ_cons, length_encode_cons, Nat.add_comm]
        exact .stray hu (ih k)

theorem Boundary.le_length {s : Bytes} {n : Nat} (h : Boundary s n) : n ≤ s.length := by
  induction h with
  | zero => exact Nat.zero_le _
  | char _ ih =>
    rw [List.length_append]
    omega
  | stray _ _ ih =>
    rw [List.length_cons]
    omega

/-- No rune is taken apart at a boundary. -/
theorem Boundary.runes_eq {s : Bytes} {n : Nat} (h : Boundary s n) :
    runes s = runes (s.take n) ++ runes (s.drop n) := by
  induction h with
  | zero => rfl
  | char _ ih =>
    rw [List.take_length_add_append, List.drop_length_add_append, runes_encodeChar_append,
      runes_encodeChar_append, ih, List.cons_append]
  | @stray b s n hu _ ih =>
    have hu' : Undecodable (b :: s.take n) := by
      intro c rest hc
      refine hu c (rest ++ s.drop n) ?_
      rw [← List.append_assoc, ← hc, List.cons_append, List.take_append_drop]
    rw [List.take_succ_cons, List.drop_succ_cons, runes_of_undecodable hu,
      runes_of_undecodable hu', ih, List.cons_append]

end Bitwire.Text
