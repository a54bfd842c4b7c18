import Bitwire.Proofs.Lines
import Bitwire.Text.Location

/-! Where an offset lies in its line. The line is the one after as many newlines as come before the
offset, and it is made of the bytes before the offset, back to the last newline, and those after it,
up to the next. At a boundary the runes of the line divide in the same way. -/
namespace Bitwire

open Text

/-! ## Lines -/

theorem lines_append_newline (s after : Bytes) :
    lines (s ++ newline :: after) = lines s ++ lines after :=
  List.splitOn_append_cons_self s after

theorem lines_of_notMem {s : Bytes} (h : newline ∉ s) : lines s = [s] :=
  List.splitOn_eq_singleton h

theorem notMem_or_exists_last_newline (s : Bytes) :
    newline ∉ s ∨ ∃ before last, s = before ++ newline :: last ∧ newline ∉ last := by
  induction s with
  | nil => exact Or.inl List.not_mem_nil
  | cons b s ih =>
    rcases ih with hs | ⟨before, last, rfl, hl⟩
    · by_cases hb : b = newline
      · exact Or.inr ⟨[], s, by rw [hb, List.nil_append], hs⟩
      · exact Or.inl fun h => (List.mem_cons.mp h).elim (fun he => hb he.symm) hs
    · exact Or.inr ⟨b :: before, last, rfl, hl⟩

theorem takeWhile_append_of_notMem {s : Bytes} (h : newline ∉ s) (after : Bytes) :
    (s ++ after).takeWhile (· != newline) = s ++ after.takeWhile (· != newline) := by
  refine List.takeWhile_append_of_pos fun b hb => ?_
  rw [bne_iff_ne]
  rintro rfl
  exact h hb

theorem lastLine_of_notMem {s : Bytes} (h : newline ∉ s) : lastLine s = s := by
  have htake := takeWhile_append_of_notMem (mt List.mem_reverse.mp h) []
  rw [List.append_nil, List.takeWhile_nil, List.append_nil] at htake
  rw [lastLine, htake, List.reverse_reverse]

theorem lastLine_append_newline (s : Bytes) {last : Bytes} (h : newline ∉ last) :
    lastLine (s ++ newline :: last) = last := by
  rw [lastLine, List.reverse_append, List.reverse_cons, List.append_assoc, List.singleton_append,
    takeWhile_append_stop (by simp)]
  exact lastLine_of_notMem h

theorem lastLine_append (s : Bytes) {text : Bytes} (h : newline ∉ text) :
    lastLine (s ++ text) = lastLine s ++ text := by
  rcases notMem_or_exists_last_newline s with hs | ⟨before, last, rfl, hl⟩
  · rw [lastLine_of_notMem hs, lastLine_of_notMem (List.not_mem_append hs h)]
  · rw [List.append_assoc, List.cons_append, lastLine_append_newline _ (List.not_mem_append hl h),
      lastLine_append_newline _ hl]

/-- Induction on the lines of a text, from the first one on. -/
@[elab_as_elim] theorem line_induction {motive : Bytes → Prop}
    (single : ∀ s, newline ∉ s → motive s)
    (snoc : ∀ before last, newline ∉ last → motive before → motive (before ++ newline :: last))
    (s : Bytes) : motive s := by
  induction h : s.length using Nat.strongRecOn generalizing s with
  | ind n ih =>
    rcases notMem_or_exists_last_newline s with hs | ⟨before, last, rfl, hl⟩
    · exact single s hs
    · exact snoc before last hl (ih before.length (by rw [← h, List.length_append]; simp) before rfl)

/-- One stretch more than there are separators. -/
theorem length_splitOn (b : UInt8) (s : Bytes) : (s.splitOn b).length = s.count b + 1 := by
  induction s with
  | nil => rfl
  | cons x s ih =>
    rw [List.splitOn_cons_eq_if_modifyHead, List.count_cons]
    split
    · rw [List.length_cons, ih]
    · rw [List.length_modifyHead, ih]

theorem length_lines (s : Bytes) : (lines s).length = s.count newline + 1 :=
  length_splitOn newline s

/-- After a line comes a newline, if anything. -/
theorem ascii_of_dropWhile (s : Bytes) :
    ∀ b ∈ (s.dropWhile (· != newline)).head?, b < 0x80 := by
  intro b hb
  have hstop := List.head?_dropWhile_not (· != newline) s
  rw [hb] at hstop
  obtain rfl : b = newline := by simpa using hstop
  decide

theorem head?_lines (s : Bytes) : (lines s).head? = some (s.takeWhile (· != newline)) := by
  have hsplit : s.takeWhile (· != newline) ++ s.dropWhile (· != newline) = s :=
    List.takeWhile_append_dropWhile
  have htake : newline ∉ s.takeWhile (· != newline) := by
    intro h
    simpa using List.all_eq_true.mp (List.all_takeWhile (l := s)) _ h
  have hdrop := List.head?_dropWhile_not (· != newline) s
  generalize s.takeWhile (· != newline) = front at hsplit htake
  cases hd : s.dropWhile (· != newline) with
  | nil =>
    rw [hd, List.append_nil] at hsplit
    rw [← hsplit, lines_of_notMem htake]
    rfl
  | cons b rest =>
    rw [hd] at hdrop hsplit
    obtain rfl : b = newline := by simpa using hdrop
    rw [← hsplit, lines_append_newline, lines_of_notMem htake]
    rfl

/-- The line of an offset, with the bytes before the offset and those after it. -/
theorem getElem?_lines (before after : Bytes) :
    (lines (before ++ after))[before.count newline]? =
      some (lastLine before ++ after.takeWhile (· != newline)) := by
  have hfirst {last : Bytes} (h : newline ∉ last) : (lines (last ++ after))[0]? =
      some (last ++ after.takeWhile (· != newline)) := by
    rw [← List.head?_eq_getElem?, head?_lines, takeWhile_append_of_notMem h]
  rcases notMem_or_exists_last_newline before with hb | ⟨front, last, rfl, hl⟩
  · rw [List.count_eq_zero.mpr hb, lastLine_of_notMem hb, hfirst hb]
  · have hcount : (front ++ newline :: last).count newline = (lines front).length + 0 := by
      rw [length_lines, List.count_append, List.count_cons_self, List.count_eq_zero.mpr hl]
    rw [List.append_assoc, List.cons_append, lines_append_newline, hcount,
      List.getElem?_append_right (Nat.le_add_right _ _), Nat.add_sub_cancel_left, hfirst hl,
      lastLine_append_newline front hl]

/-! ## Columns -/

theorem locate_natCast {src : Bytes} {offset : Nat} (h : offset ≤ src.length) :
    locate src offset = ⟨(src.take offset).count newline + 1,
      (runes (lastLine (src.take offset))).length + 1⟩ := by
  simp [locate, clamp, Nat.min_eq_left h]

theorem runes_lastLine {src : Bytes} {offset : Nat} (h : Boundary src offset) :
    runes (lastLine (src.take offset) ++ src.drop offset) =
      runes (lastLine (src.take offset)) ++ runes (src.drop offset) := by
  have hr := h.runes_eq
  have hsrc : src.take offset ++ src.drop offset = src := List.take_append_drop offset src
  generalize src.take offset = before at hr hsrc
  generalize src.drop offset = after at hr hsrc
  subst hsrc
  rcases notMem_or_exists_last_newline before with hb | ⟨front, last, rfl, hl⟩
  · rwa [lastLine_of_notMem hb]
  · rw [lastLine_append_newline front hl]
    rw [List.append_assoc, List.cons_append, runes_append_newline, runes_append_newline,
      List.append_assoc, List.append_cancel_left_eq, List.cons_append, List.cons.injEq] at hr
    exact hr.2

/-- The line up to some ASCII byte after a boundary has the runes before the boundary and those
after it. -/
theorem runes_lastLine_append {src shown rest : Bytes} {offset : Nat} (h : Boundary src offset)
    (hd : src.drop offset = shown ++ rest) (hr : ∀ b ∈ rest.head?, b < 0x80) :
    runes (lastLine (src.take offset) ++ shown) =
      runes (lastLine (src.take offset)) ++ runes shown := by
  have hline := runes_lastLine h
  rw [hd, ← List.append_assoc, runes_append_ascii _ hr, runes_append_ascii _ hr,
    ← List.append_assoc] at hline
  exact List.append_cancel_right hline

/-! ## Trailing bytes -/

theorem dropTrailing_append_replicate {b : UInt8} {s : Bytes} (h : s.getLast? ≠ some b) (n : Nat) :
    dropTrailing b (s ++ List.replicate n b) = s := by
  have hstop : s.reverse.dropWhile (· == b) = s.reverse := by
    rw [← List.head?_reverse] at h
    cases hs : s.reverse with
    | nil => rfl
    | cons x xs =>
      rw [hs] at h
      exact List.dropWhile_cons_of_neg (by simpa using h)
  have hall : ∀ x ∈ List.replicate n b, (x == b) = true := by
    intro x hx
    simp [List.eq_of_mem_replicate hx]
  rw [dropTrailing, List.reverse_append, List.reverse_replicate,
    List.dropWhile_append_of_pos hall, hstop, List.reverse_reverse]

theorem exists_trailing (b : UInt8) (s : Bytes) :
    ∃ front n, s = front ++ List.replicate n b ∧ front.getLast? ≠ some b := by
  induction h : s.length using Nat.strongRecOn generalizing s with
  | ind n ih =>
    by_cases hs : s.getLast? = some b
    · obtain ⟨front, rfl⟩ := List.getLast?_eq_some_iff.mp hs
      obtain ⟨front, n, rfl, hf⟩ := ih front.length (by rw [← h]; simp) front rfl
      exact ⟨front, n + 1, by rw [List.replicate_succ', List.append_assoc], hf⟩
    · exact ⟨s, 0, (List.append_nil s).symm, hs⟩

end Bitwire
