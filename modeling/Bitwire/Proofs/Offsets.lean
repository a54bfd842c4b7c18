import Bitwire.Proofs.Locations
import Mathlib.Data.List.Infix

/-! From a location back to its offset. The lines before it, with their newlines, and the runes before
its column take up the bytes before the offset, if the offset is a boundary; so boundaries have
different locations, and these come in the order of the boundaries. -/
namespace Bitwire

open Text

/-! ## The bytes before an offset -/

theorem flatMap_lines (s : Bytes) : (lines s).flatMap (· ++ [newline]) = s ++ [newline] := by
  induction s using line_induction with
  | single s hs => rw [lines_of_notMem hs, List.flatMap_singleton]
  | snoc before last hl ih =>
    rw [lines_append_newline, lines_of_notMem hl, List.flatMap_append, ih, List.flatMap_singleton]
    simp

/-- The bytes before an offset are whole lines and the beginning of one more. -/
theorem take_lines_append_lastLine (before after : Bytes) :
    ((lines (before ++ after)).take (before.count newline)).flatMap (· ++ [newline]) ++
      lastLine before = before := by
  rcases notMem_or_exists_last_newline before with hb | ⟨front, last, rfl, hl⟩
  · rw [List.count_eq_zero.mpr hb, lastLine_of_notMem hb]
    rfl
  · have hcount : (front ++ newline :: last).count newline = (lines front).length := by
      rw [length_lines, List.count_append, List.count_cons_self, List.count_eq_zero.mpr hl]
    rw [hcount, List.append_assoc, List.cons_append, lines_append_newline, List.take_left,
      flatMap_lines, lastLine_append_newline front hl, List.append_assoc, List.singleton_append]

/-! ## The offset of a location -/

/-- Where a line starts; lines count from one. -/
def lineStart (src : Bytes) (line : Nat) : Nat :=
  (((lines src).take (line - 1)).flatMap (· ++ [newline])).length

section LineStart

variable {src : Bytes} {offset : Nat}

theorem lineStart_add_length (h : offset ≤ src.length) :
    lineStart src ((src.take offset).count newline + 1) + (lastLine (src.take offset)).length =
      offset := by
  have hbytes := take_lines_append_lastLine (src.take offset) (src.drop offset)
  rw [List.take_append_drop] at hbytes
  rw [lineStart, Nat.add_sub_cancel, ← List.length_append, hbytes, List.length_take,
    Nat.min_eq_left h]

theorem drop_lineStart (src : Bytes) (offset : Nat) :
    src.drop (lineStart src ((src.take offset).count newline + 1)) =
      lastLine (src.take offset) ++ src.drop offset := by
  have hbytes := take_lines_append_lastLine (src.take offset) (src.drop offset)
  rw [List.take_append_drop] at hbytes
  calc src.drop (lineStart src ((src.take offset).count newline + 1))
      = (((lines src).take ((src.take offset).count newline)).flatMap (· ++ [newline]) ++
          (lastLine (src.take offset) ++ src.drop offset)).drop
            (lineStart src ((src.take offset).count newline + 1)) := by
        rw [← List.append_assoc, hbytes, List.take_append_drop]
    _ = lastLine (src.take offset) ++ src.drop offset := List.drop_left' rfl

end LineStart

/-- The line of a location exists and goes at least up to its column, and the runes before the column
end at the offset. -/
def Text.Location.LeadsTo (src : Bytes) (place : Location) (offset : Nat) : Prop :=
  ∃ line, (lines src)[place.line - 1]? = some line ∧
    line <+: src.drop (lineStart src place.line) ∧
    place.column - 1 ≤ (runes line).length ∧
    offset = lineStart src place.line + (encode ((runes line).take (place.column - 1))).length

/-- The order of reading. -/
def Text.Location.Before (a b : Location) : Prop :=
  a.line < b.line ∨ a.line = b.line ∧ a.column < b.column

namespace Text.Location

variable {src : Bytes} {a b : Location} {p q : Nat}

/-- In one line, later columns have later offsets. -/
theorem LeadsTo.le (ha : a.LeadsTo src p) (hb : b.LeadsTo src q) (hline : a.line = b.line)
    (hcolumn : a.column ≤ b.column) : p ≤ q := by
  obtain ⟨line, hl, -, -, rfl⟩ := ha
  obtain ⟨line', hl', -, -, rfl⟩ := hb
  rw [hline, hl'] at hl
  obtain rfl := Option.some.inj hl
  rw [hline]
  refine Nat.add_le_add_left ?_ _
  have htake : (runes line').take (a.column - 1) <+: (runes line').take (b.column - 1) :=
    List.take_prefix_take_left (Nat.sub_le_sub_right hcolumn 1)
  exact (List.IsPrefix.flatMap htake Rune.bytes).length_le

theorem LeadsTo.unique (ha : a.LeadsTo src p) (hb : a.LeadsTo src q) : p = q :=
  Nat.le_antisymm (ha.le hb rfl (Nat.le_refl _)) (hb.le ha rfl (Nat.le_refl _))

end Text.Location

/-! ## The location of an offset -/

theorem clamp_eq (src : Bytes) (position : Int) :
    (clamp src position : Int) = max 0 (min position src.length) := by
  unfold clamp
  omega

theorem locate_leadsTo {src : Bytes} {offset : Nat} (h : Boundary src offset) :
    (locate src offset).LeadsTo src offset := by
  have hline := getElem?_lines (src.take offset) (src.drop offset)
  rw [List.take_append_drop] at hline
  have hsplit : (src.drop offset).takeWhile (· != newline) ++
      (src.drop offset).dropWhile (· != newline) = src.drop offset :=
    List.takeWhile_append_dropWhile
  have hrunes := runes_lastLine_append h hsplit.symm (ascii_of_dropWhile _)
  rw [locate_natCast h.le_length]
  refine ⟨_, hline, ?_, ?_, ?_⟩
  · rw [drop_lineStart, List.prefix_append_right_inj]
    exact ⟨_, hsplit⟩
  · rw [hrunes, List.length_append]
    exact Nat.le_add_right _ _
  · rw [hrunes, Nat.add_sub_cancel, List.take_left, encode_runes, lineStart_add_length h.le_length]

theorem locate_before {src : Bytes} {p q : Nat} (hp : Boundary src p) (hq : Boundary src q)
    (h : p < q) : (locate src p).Before (locate src q) := by
  have hline : (locate src p).line ≤ (locate src q).line := by
    rw [locate_natCast hp.le_length, locate_natCast hq.le_length]
    have htake : src.take p <+: src.take q := List.take_prefix_take_left (Nat.le_of_lt h)
    exact Nat.succ_le_succ (htake.count_le newline)
  rcases Nat.lt_or_eq_of_le hline with hlt | heq
  · exact Or.inl hlt
  · refine Or.inr ⟨heq, Nat.lt_of_not_le fun hcolumn => ?_⟩
    have hle : q ≤ p := (locate_leadsTo hq).le (locate_leadsTo hp) heq.symm hcolumn
    omega

/-- Positions outside the text count as its ends, and a position is in the line after as many newlines
as come before it. The location of a boundary leads back to it, so that different boundaries have
different locations, and these are in the order of the boundaries. -/
theorem boundary_determined_by_location (src : Bytes) :
    (∀ position : Int, locate src position = locate src (max 0 (min position src.length)) ∧
      ∀ offset : Nat, (offset : Int) = max 0 (min position src.length) →
        (locate src position).line = (src.take offset).count newline + 1) ∧
    (∀ p, Boundary src p → (locate src p).LeadsTo src p) ∧
    (∀ p q, Boundary src p → Boundary src q → p < q → (locate src p).Before (locate src q)) ∧
    ∀ p q, Boundary src p → Boundary src q → locate src p = locate src q → p = q := by
  refine ⟨fun position => ⟨?_, fun offset ho => ?_⟩, fun p => locate_leadsTo,
    fun p q => locate_before, fun p q hp hq he => ?_⟩
  · have hclamp : clamp src (max 0 (min position src.length)) = clamp src position := by
      unfold clamp
      omega
    simp only [locate, hclamp]
  · rw [← clamp_eq] at ho
    rw [Int.ofNat.inj ho]
    rfl
  · have hq' := locate_leadsTo hq
    rw [← he] at hq'
    exact (locate_leadsTo hp).unique hq'

/-- The offset behind a letter of two bytes and a stray byte in the second line, and the start of that
line. -/
theorem location_behind_stray_byte :
    let src := utf8 "a\né" ++ [0xFF] ++ utf8 "b"
    (Boundary src 2 ∧ Boundary src 5) ∧ locate src 5 = ⟨2, 3⟩ ∧ locate src 99 = locate src 6 ∧
      (locate src 5).LeadsTo src 5 ∧ (locate src 2).Before (locate src 5) ∧
      locate src 2 ≠ locate src 5 := by
  intro src
  have hp : Boundary src 2 := boundary_iff.mpr ⟨2, rfl⟩
  have hq : Boundary src 5 := boundary_iff.mpr ⟨4, rfl⟩
  obtain ⟨hclamp, hleads, hbefore, hinj⟩ := boundary_determined_by_location src
  exact ⟨⟨hp, hq⟩, rfl, (hclamp 99).1, hleads 5 hq, hbefore 2 5 hp hq (by decide),
    fun he => absurd (hinj 2 5 hp hq he) (by decide)⟩

/-- Inside a rune the columns go backwards. -/
example : let src := utf8 "𝟘"
    locate src 3 = ⟨1, 4⟩ ∧ locate src 4 = ⟨1, 2⟩ := by
  decide +kernel

end Bitwire
