import Bitwire.Proofs.Scanning

/-! Lines of a text: which texts hold no newline, and what is left of a line without the white
space around it. -/
namespace Bitwire

open Text
open String (utf8EncodeChar)

/-! ## Texts of a class of characters -/

/-- A text all of whose characters are in a class. -/
def Made (p : Char → Bool) (text : Bytes) : Prop :=
  ∃ cs, text = encodeChars cs ∧ ∀ c ∈ cs, p c = true

theorem encodeChars_append (cs ds : List Char) :
    encodeChars (cs ++ ds) = encodeChars cs ++ encodeChars ds :=
  List.flatMap_append

namespace Made

variable {p q : Char → Bool} {text text' : Bytes}

theorem append (h : Made p text) (h' : Made p text') : Made p (text ++ text') := by
  obtain ⟨cs, rfl, hcs⟩ := h
  obtain ⟨ds, rfl, hds⟩ := h'
  exact ⟨cs ++ ds, (encodeChars_append cs ds).symm, List.forall_mem_append.mpr ⟨hcs, hds⟩⟩

theorem mono (hpq : ∀ c, p c = true → q c = true) (h : Made p text) : Made q text := by
  obtain ⟨cs, rfl, hcs⟩ := h
  exact ⟨cs, rfl, fun c hc => hpq c (hcs c hc)⟩

theorem of_utf8 {s : String} (h : s.toList.all p = true) : Made p (utf8 s) :=
  ⟨s.toList, rfl, List.all_eq_true.mp h⟩

end Made

/-- An ASCII byte stands in the encoding of its own character only. -/
theorem eq_of_mem_encodeChar {a c : Char} {b : UInt8} (ha : utf8EncodeChar a = [b]) (hb : b < 0x80)
    (h : b ∈ utf8EncodeChar c) : c = a := by
  obtain ⟨x, tail, hc⟩ := List.exists_cons_of_ne_nil (String.utf8EncodeChar_ne_nil (c := c))
  rw [hc] at h
  rcases List.mem_cons.mp h with rfl | h
  · have he : utf8EncodeChar c ++ [] = utf8EncodeChar a ++ tail := by
      rw [hc, ha, List.append_nil, List.singleton_append]
    exact (encodeChar_append_inj he).1
  · exact absurd hb (UInt8.not_lt.mpr (le_of_mem_tail_encodeChar hc b h))

theorem Made.notMem {p : Char → Bool} {text : Bytes} (h : Made p text) {a : Char} {b : UInt8}
    (ha : utf8EncodeChar a = [b]) (hb : b < 0x80) (hp : p a = false) : b ∉ text := by
  obtain ⟨cs, rfl, hcs⟩ := h
  intro hmem
  obtain ⟨c, hc, hbc⟩ := List.mem_flatMap.mp hmem
  rw [← eq_of_mem_encodeChar ha hb hbc, hcs c hc] at hp
  cases hp

/-- A character that is no white space. -/
def visible (c : Char) : Bool := ! isBlank c

theorem visible_iff {c : Char} : visible c = true ↔ isBlank c = false := by
  simp [visible]

/-- A character that neither is nor starts the end of a line. -/
def inLine (c : Char) : Bool := c != '\n' && c != '\r'

theorem inLine_of_not_isBlank {c : Char} (h : isBlank c = false) : inLine c = true := by
  have hne {a : Char} (ha : isBlank a = true) : c ≠ a := by
    rintro rfl
    rw [h] at ha
    cases ha
  simp [inLine, hne (a := '\n') (by decide), hne (a := '\r') (by decide)]

theorem isBlank_of_wordPart {c : Char} (h : wordPart c = true) : isBlank c = false := by
  cases hb : isBlank c with
  | false => rfl
  | true => simp [wordPart_of_isBlank hb] at h

theorem IsName.made {text : Bytes} (h : IsName text) : Made wordPart text := by
  obtain ⟨⟨c, cs, rfl, hc, hcs⟩, -⟩ := h
  exact ⟨c :: cs, rfl, List.forall_mem_cons.mpr ⟨wordPart_of_wordStart hc, hcs⟩⟩

theorem IsName.made_inLine {text : Bytes} (h : IsName text) : Made inLine text :=
  h.made.mono fun _ hc => inLine_of_not_isBlank (isBlank_of_wordPart hc)

theorem IsDigits.made_inLine {text : Bytes} (h : IsDigits text) : Made inLine text := by
  obtain ⟨c, cs, rfl, hcs⟩ := h
  exact ⟨c :: cs, rfl, fun x hx => inLine_of_not_isBlank (isDecimal_spec (hcs x hx)).1⟩

theorem Made.newline_notMem {text : Bytes} (h : Made inLine text) : newline ∉ text :=
  h.notMem (a := '\n') rfl (by decide) (by decide)

theorem Made.carriageReturn_notMem {text : Bytes} (h : Made inLine text) :
    carriageReturn ∉ text :=
  h.notMem (a := '\r') rfl (by decide) (by decide)

/-! ## Texts that are cut off a source -/

/-- A token holds no white space. -/
theorem Spelled.made {kind : Kind} {text after : Bytes} (h : Spelled kind text after) :
    Made visible text := by
  cases h with
  | name ht _ => exact ht.made.mono fun _ hc => visible_iff.mpr (isBlank_of_wordPart hc)
  | literal ht _ =>
    obtain ⟨c, cs, rfl, hcs⟩ := ht
    exact ⟨c :: cs, rfl, fun x hx => visible_iff.mpr (isDecimal_spec (hcs x hx)).1⟩
  | keyword hk _ =>
    obtain ⟨-, c, cs, he, hc, hcs⟩ := keyword_spec hk
    rw [he]
    refine ⟨c :: cs, rfl, List.forall_mem_cons.mpr ⟨?_, fun x hx => ?_⟩⟩
    · exact visible_iff.mpr (wordStart_spec hc).1
    · exact visible_iff.mpr (isBlank_of_wordPart (hcs x hx))
  | symbol hk =>
    obtain ⟨c, hb, -, -, -, hs⟩ := symbol_spec hk
    have hc : visible c = true := visible_iff.mpr hb
    rcases hs with ⟨-, he⟩ | ⟨-, -, he⟩
    · exact ⟨[c], by simp [he], by simpa using hc⟩
    · exact ⟨[c, c], by simp [he], by simpa using hc⟩

theorem Spelled.made_inLine {kind : Kind} {text after : Bytes} (h : Spelled kind text after) :
    Made inLine text :=
  h.made.mono fun _ hc => inLine_of_not_isBlank (visible_iff.mp hc)

theorem Spelled.exists_head {kind : Kind} {text after : Bytes} (h : Spelled kind text after) :
    ∃ c rest, text = utf8EncodeChar c ++ rest := by
  obtain ⟨cs, rfl, -⟩ := h.made_inLine
  cases cs with
  | nil => exact absurd rfl h.ne_nil
  | cons c cs => exact ⟨c, encodeChars cs, rfl⟩

/-- A rune that starts nothing is no white space, so that it holds no byte of any. -/
theorem Stuck.notMem {c : Char} {text after : Bytes} (h : Stuck text after c) {a : Char} {b : UInt8}
    (ha : utf8EncodeChar a = [b]) (hb : b < 0x80) (hblank : isBlank a = true) : b ∉ text := by
  intro hmem
  cases h with
  | char hs =>
    rw [eq_of_mem_encodeChar ha hb hmem] at hs
    exact not_startsNothing_of_skipped (.blank hblank) hs
  | stray hu =>
    obtain rfl := List.mem_singleton.mp hmem
    exact hu a after (by rw [ha]; rfl)

theorem Stuck.exists_rune {c : Char} {text after : Bytes} (h : Stuck text after c) :
    ∃ r, (runes (text ++ after)).head? = some r ∧ text = r.bytes ∧ r.char = c := by
  cases h with
  | char _ =>
    rw [runes_encodeChar_append]
    exact ⟨.scalar c, rfl, rfl, rfl⟩
  | @stray b _ hu =>
    rw [List.singleton_append, runes_of_undecodable hu]
    exact ⟨.stray b, rfl, rfl, rfl⟩

/-! ## Suffixes -/

theorem dropSuffix_append (s tail : Bytes) : dropSuffix tail (s ++ tail) = s := by
  simp [dropSuffix]

theorem dropSuffix_of_notMem {b : UInt8} {s : Bytes} (h : b ∉ s) : dropSuffix [b] s = s := by
  refine if_neg fun hs => h ?_
  exact (List.isSuffixOf_iff_suffix.mp hs).subset List.mem_cons_self

/-! ## Trimming -/

/-- A text that neither starts nor ends with white space. -/
def Tight (text : Bytes) : Prop :=
  ∃ cs, text = encodeChars cs ∧ (∃ c ∈ cs.head?, isBlank c = false) ∧
    ∃ c ∈ cs.getLast?, isBlank c = false

theorem trim_encodeChars (cs : List Char) :
    trim (encodeChars cs) =
      encodeChars ((cs.dropWhile isBlank).reverse.dropWhile isBlank).reverse := by
  have hblank : Rune.isBlank ∘ Rune.scalar = isBlank := rfl
  rw [trim, runes_encodeChars]
  simp only [List.dropWhile_map, ← List.map_reverse, hblank, encode_scalars]

/-- A blank at the end of a text is trimmed, whatever bytes stand before it. -/
theorem trim_append_blank (s : Bytes) {c : Char} {b : UInt8} (hc : utf8EncodeChar c = [b])
    (hb : b < 0x80) (hblank : isBlank c = true) : trim (s ++ [b]) = trim s := by
  have hrunes : runes (s ++ [b]) = runes s ++ [.scalar c] := by
    rw [runes_append_ascii s (by simpa using hb), ← hc, runes_encodeChar]
  have hrune : Rune.isBlank (.scalar c) = true := hblank
  simp only [trim, hrunes, List.dropWhile_append]
  split
  · next h => simp [List.isEmpty_iff.mp h, hrune]
  · simp [hrune]

theorem trim_blank_append (s : Bytes) {front : List Char} (hblank : front.all isBlank = true) :
    trim (encodeChars front ++ s) = trim s := by
  have hfront : ∀ r ∈ front.map Rune.scalar, Rune.isBlank r = true := by
    simpa [Rune.isBlank, Rune.char] using hblank
  rw [trim, runes_encodeChars_append, List.dropWhile_append_of_pos hfront, ← trim]

/-- A carriage return at the end of a line is trimmed anyway. -/
theorem trim_dropSuffix (raw : Bytes) : trim (dropSuffix [carriageReturn] raw) = trim raw := by
  by_cases h : [carriageReturn] <:+ raw
  · obtain ⟨s, rfl⟩ := h
    rw [dropSuffix_append]
    exact (trim_append_blank s (c := '\r') rfl (by decide) (by decide)).symm
  · rw [dropSuffix, if_neg (fun hs => h (List.isSuffixOf_iff_suffix.mp hs))]

theorem IsName.tight {text : Bytes} (h : IsName text) : Tight text := by
  obtain ⟨⟨c, cs, rfl, hc, hcs⟩, -⟩ := h
  have hpart : ∀ x ∈ c :: cs, wordPart x = true :=
    List.forall_mem_cons.mpr ⟨wordPart_of_wordStart hc, hcs⟩
  refine ⟨c :: cs, rfl, ⟨c, rfl, (wordStart_spec hc).1⟩, (c :: cs).getLast (by simp), ?_, ?_⟩
  · exact List.getLast?_eq_some_getLast _
  · exact isBlank_of_wordPart (hpart _ (List.getLast_mem _))

theorem IsDigits.tight {text : Bytes} (h : IsDigits text) : Tight text := by
  obtain ⟨c, cs, rfl, hcs⟩ := h
  refine ⟨c :: cs, rfl, ⟨c, rfl, (isDecimal_spec (hcs c List.mem_cons_self)).1⟩,
    (c :: cs).getLast (by simp), List.getLast?_eq_some_getLast _, ?_⟩
  exact (isDecimal_spec (hcs _ (List.getLast_mem _))).1

theorem Tight.of_utf8 {s : String} (hhead : s.toList.head?.any (! isBlank ·) = true)
    (hlast : s.toList.getLast?.any (! isBlank ·) = true) : Tight (utf8 s) := by
  refine ⟨s.toList, rfl, ?_, ?_⟩
  · simpa [Option.any_eq_true] using hhead
  · simpa [Option.any_eq_true] using hlast

/-- Trimming takes away the white space that was put around a text. -/
theorem Tight.trim {text : Bytes} (h : Tight text) {front back : List Char}
    (hfront : front.all isBlank = true) (hback : back.all isBlank = true) :
    trim (encodeChars front ++ text ++ encodeChars back) = text := by
  obtain ⟨cs, rfl, ⟨c, hc, hcb⟩, d, hd, hdb⟩ := h
  obtain ⟨tail, rfl⟩ := List.head?_eq_some_iff.mp hc
  obtain ⟨init, he⟩ := List.getLast?_eq_some_iff.mp hd
  have hleft : (front ++ c :: tail ++ back).dropWhile isBlank = c :: tail ++ back := by
    rw [List.append_assoc, List.dropWhile_append_of_pos (List.all_eq_true.mp hfront),
      List.cons_append, List.dropWhile_cons_of_neg (by simp [hcb])]
  have hright : (c :: tail ++ back).reverse.dropWhile isBlank = (c :: tail).reverse := by
    have hb : ∀ x ∈ back.reverse, isBlank x = true := by
      simpa using hback
    rw [List.reverse_append, List.dropWhile_append_of_pos hb, he, List.reverse_append,
      List.reverse_singleton, List.singleton_append, List.dropWhile_cons_of_neg (by simp [hdb])]
  rw [← encodeChars_append, ← encodeChars_append, trim_encodeChars, hleft, hright,
    List.reverse_reverse]

theorem Tight.surround {text mid text' : Bytes} {p : Char → Bool} (h : Tight text)
    (hm : Made p mid) (h' : Tight text') : Tight (text ++ mid ++ text') := by
  obtain ⟨cs, rfl, hc, -⟩ := h
  obtain ⟨ms, rfl, -⟩ := hm
  obtain ⟨ds, rfl, -, hd⟩ := h'
  refine ⟨cs ++ ms ++ ds, by simp [encodeChars_append], ?_, ?_⟩
  · obtain ⟨c, hc, hb⟩ := hc
    exact ⟨c, by simp_all [List.head?_append], hb⟩
  · obtain ⟨c, hc, hb⟩ := hd
    exact ⟨c, by simp_all [List.getLast?_append], hb⟩

/-! ## Newlines -/

theorem takeWhile_append_stop {α : Type} {p : α → Bool} {x : α} (hx : p x = false)
    (xs ys : List α) : (xs ++ x :: ys).takeWhile p = xs.takeWhile p := by
  induction xs with
  | nil => simp [hx]
  | cons y xs ih => simp only [List.cons_append, List.takeWhile_cons, ih]

/-- Lines without newlines, each ended by one, are told apart again. -/
theorem lines_flatMap {ls : List Bytes} (h : ∀ l ∈ ls, newline ∉ l) :
    lines (ls.flatMap (· ++ [newline])) = ls ++ [[]] := by
  induction ls with
  | nil => rfl
  | cons l ls ih =>
    obtain ⟨hl, hls⟩ := List.forall_mem_cons.mp h
    rw [List.flatMap_cons, List.append_assoc, List.singleton_append, lines,
      List.splitOn_append_cons_self_of_not_mem hl, ← lines, ih hls, List.cons_append]

end Bitwire
