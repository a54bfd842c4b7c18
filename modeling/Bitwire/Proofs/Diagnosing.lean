import Bitwire.Proofs.Compiling
import Bitwire.Proofs.Layout
import Bitwire.Proofs.Locations
import Bitwire.Proofs.Messages

/-! The diagnostic of a source that cannot be compiled. An error points at a token, at a bad character
or behind the last token. None of these is white space, so that the place is left of the carriage
returns that are dropped from the line which is shown, and the caret stands below the rune to blame. -/
namespace Bitwire

open Text
open String (utf8EncodeChar)

/-! ## What stands at an offset -/

/-- A rune that is no end of a line stands at the offset. -/
structure StandsAt (src : Bytes) (offset : Nat) (r : Rune) : Prop where
  boundary : Boundary src offset
  head : (runes (src.drop offset)).head? = some r
  newline_notMem : newline ∉ r.bytes
  carriageReturn_notMem : carriageReturn ∉ r.bytes

theorem StandsAt.exists_byte {src : Bytes} {offset : Nat} {r : Rune} (h : StandsAt src offset r) :
    ∃ b rest, src.drop offset = b :: rest ∧ b ≠ newline ∧ b ≠ carriageReturn := by
  obtain ⟨rs, hrs⟩ := List.head?_eq_some_iff.mp h.head
  have hbytes : src.drop offset = r.bytes ++ encode rs := by
    rw [← encode_runes (src.drop offset), hrs]
    rfl
  obtain ⟨b, tail, hr⟩ := List.exists_cons_of_ne_nil r.bytes_ne_nil
  have hb : b ∈ r.bytes := hr ▸ List.mem_cons_self
  refine ⟨b, tail ++ encode rs, by rw [hbytes, hr, List.cons_append], ?_, ?_⟩
  · rintro rfl
    exact h.newline_notMem hb
  · rintro rfl
    exact h.carriageReturn_notMem hb

/-- A token starts with its first rune, where the source has it. -/
theorem exists_standsAt_of_token {src : Bytes} {t : Token} (h : t ∈ tokens src) :
    ∃ offset r, t.start = (offset : Nat) ∧ StandsAt src offset r ∧
      (runes (spell t.key)).head? = some r := by
  have hmem := mem_items_of_mem_tokens h
  obtain ⟨offset, hstart, hb⟩ := (placed_of_mem_items hmem).exists_start
  obtain ⟨i, j, hij, -, hi, -, hspelled, htext⟩ := exists_readsAt_of_mem_items hmem
  obtain rfl : offset = i := Int.ofNat.inj (hstart.symm.trans hi)
  have hspell : spell t.key = slice src offset j := by
    rw [Token.key, htext]
    exact hspelled.spell_eq
  have hmade := hspelled.made_inLine
  obtain ⟨c, rest, hc⟩ := hspelled.exists_head
  have hsub : ∀ b ∈ utf8EncodeChar c, b ∈ slice src offset j := fun b hb =>
    hc ▸ List.mem_append_left _ hb
  refine ⟨offset, .scalar c, hstart, ⟨hb, ?_, ?_, ?_⟩, ?_⟩
  · rw [← slice_append_drop (Nat.le_of_lt hij), hc, List.append_assoc, runes_encodeChar_append]
    rfl
  · exact fun hn => hmade.newline_notMem (hsub _ hn)
  · exact fun hn => hmade.carriageReturn_notMem (hsub _ hn)
  · rw [hspell, hc, runes_encodeChar_append]
    rfl

theorem exists_standsAt_of_badCharacter {src : Bytes} {c : BadCharacter}
    (h : .badCharacter c ∈ lexicalFailures src) :
    ∃ offset r, c.position = (offset : Nat) ∧ StandsAt src offset r ∧ c.code = r.char.toNat := by
  have hmem := mem_items_of_mem_lexicalFailures h
  obtain ⟨i, j, hij, -, hi, x, hstuck, hcode⟩ := exists_readsAt_of_mem_items hmem
  have hb : Boundary src i := by
    cases placed_of_mem_items hmem with
    | bad hb =>
      obtain rfl := Int.ofNat.inj hi
      exact hb
  obtain ⟨r, hr, htext, rfl⟩ := hstuck.exists_rune
  rw [slice_append_drop (Nat.le_of_lt hij)] at hr
  refine ⟨i, r, hi, ⟨hb, hr, ?_, ?_⟩, hcode⟩
  · exact htext ▸ hstuck.notMem (a := '\n') rfl (by decide) (by decide)
  · exact htext ▸ hstuck.notMem (a := '\r') rfl (by decide) (by decide)

/-- The last token ends in no carriage return, so that none comes before the end of the tokens. -/
theorem exists_end_of_tokens (src : Bytes) :
    ∃ offset : Nat, endOf 0 (tokens src) = offset ∧ Boundary src offset ∧
      (lastLine (src.take offset)).getLast? ≠ some carriageReturn := by
  obtain ⟨offset, hend, hb⟩ := Placed.exists_endOf fun t ht =>
    placed_of_mem_items (mem_items_of_mem_tokens ht)
  refine ⟨offset, hend, hb, ?_⟩
  cases hl : (tokens src).getLast? with
  | none =>
    rw [endOf, hl] at hend
    obtain rfl := Int.ofNat.inj hend.symm
    simp [lastLine]
  | some t =>
    rw [endOf, hl] at hend
    obtain ⟨i, j, hij, hj, -, hstop, hspelled, -⟩ :=
      exists_readsAt_of_mem_items (mem_items_of_mem_tokens (List.mem_of_getLast? hl))
    obtain rfl : j = offset := Int.ofNat.inj (hstop.symm.trans hend)
    have hmade := hspelled.made_inLine
    have htake : src.take j = src.take i ++ slice src i j := by
      have hi : (src.take j).take i = src.take i := by
        rw [List.take_take, Nat.min_eq_left (Nat.le_of_lt hij)]
      rw [← hi]
      exact (List.take_append_drop i (src.take j)).symm
    rw [htake, lastLine_append _ hmade.newline_notMem,
      List.getLast?_append_of_ne_nil _ hspelled.ne_nil]
    exact fun hn => hmade.carriageReturn_notMem (List.mem_of_getLast? hn)

/-! ## The line that is shown -/

/-- The carriage returns at the end of a line come after the offset: none is directly before it, or
something else stands there. -/
def Anchored (src : Bytes) (offset : Nat) : Prop :=
  (lastLine (src.take offset)).getLast? ≠ some carriageReturn ∨ ∃ r, StandsAt src offset r

/-- The line of an offset without the carriage returns at its end. -/
theorem exists_shown {src : Bytes} {offset : Nat} (h : Anchored src offset) :
    ∃ after rest n, src.drop offset = after ++ rest ∧ (∀ b ∈ rest.head?, b < 0x80) ∧
      (lines src)[(src.take offset).count newline]? =
        some (lastLine (src.take offset) ++ after ++ List.replicate n carriageReturn) ∧
      (lastLine (src.take offset) ++ after).getLast? ≠ some carriageReturn ∧
      ((∃ r, StandsAt src offset r) → after ≠ []) := by
  have hline := getElem?_lines (src.take offset) (src.drop offset)
  rw [List.take_append_drop] at hline
  obtain ⟨after, n, hafter, hlast⟩ :=
    exists_trailing carriageReturn ((src.drop offset).takeWhile (· != newline))
  have hne : (∃ r, StandsAt src offset r) → after ≠ [] := by
    rintro ⟨r, hr⟩ rfl
    obtain ⟨b, rest, hd, hn, hc⟩ := hr.exists_byte
    rw [hd, List.takeWhile_cons_of_pos (by simpa using hn), List.nil_append] at hafter
    exact hc (List.eq_of_mem_replicate (hafter ▸ List.mem_cons_self))
  refine ⟨after, List.replicate n carriageReturn ++ (src.drop offset).dropWhile (· != newline), n,
    ?_, ?_, ?_, ?_, hne⟩
  · rw [← List.append_assoc, ← hafter, List.takeWhile_append_dropWhile]
  · cases n with
    | zero => exact ascii_of_dropWhile _
    | succ n =>
      intro b hb
      obtain rfl : carriageReturn = b := Option.some.inj hb
      decide
  · rw [hline, hafter, List.append_assoc]
  · by_cases hnil : after = []
    · rw [hnil, List.append_nil]
      exact h.resolve_right fun hr => hne hr hnil
    · rwa [List.getLast?_append_of_ne_nil _ hnil]

theorem caretPad_eq {line : Bytes} {column : Nat} (h : column ≤ (runes line).length) :
    caretPad line (column + 1) =
      ((runes line).take column).map fun r => if r.char = '\t' then tab else space := by
  simp [caretPad, Nat.min_eq_left h]

/-! ## The report -/

/-- The report of an error at the line after `row` others and the rune after `column` others of it:
the place, the message, the line and the caret below. -/
structure Report (file src : Bytes) (error : SourceError) (row column : Nat)
    (shown pad : Bytes) : Prop where
  place : locate src error.position = ⟨row + 1, column + 1⟩
  text : diagnose file src (.source error) =
    file ++ utf8 ":" ++ decimal (row + 1) ++ utf8 ":" ++ decimal (column + 1) ++ utf8 ": error: " ++
      error.message ++ [newline] ++ utf8 "    " ++ shown ++ [newline] ++ utf8 "    " ++ pad ++ utf8 "^"
  line : ∃ n, (lines src)[row]? = some (shown ++ List.replicate n carriageReturn)
  trimmed : shown.getLast? ≠ some carriageReturn
  message : newline ∉ error.message
  length_pad : pad.length = column
  aligned : ∀ k < column, pad[k]? =
    some (if (runes shown)[k]?.map Rune.char = some '\t' then tab else space)
  within : column ≤ (runes shown).length

/-- The rune of a line after `column` others is the one that an error is about, if it is about a token
or a character. -/
def PointsAt (shown : Bytes) (column : Nat) : SourceError → Prop
  | .unexpected (some t) _ _ | .extraToken t =>
    ∃ r, (runes shown)[column]? = some r ∧ (runes (spell t.key)).head? = some r
  | .invalidCharacter c => ∃ r, (runes shown)[column]? = some r ∧ c.code = r.char.toNat
  | .unexpected none _ _ | .invalidToken _ => True

/-- Behind the runes before a place comes the one that stands there. -/
theorem StandsAt.rune_at_column {src after rest : Bytes} {offset : Nat} {r : Rune}
    (h : StandsAt src offset r) (hd : src.drop offset = after ++ rest)
    (hascii : ∀ b ∈ rest.head?, b < 0x80) (hne : after ≠ []) :
    (runes (lastLine (src.take offset) ++ after))[(runes (lastLine (src.take offset))).length]? =
      some r := by
  have hhead := h.head
  rw [hd, runes_append_ascii after hascii] at hhead
  rw [runes_lastLine_append h.boundary hd hascii, List.getElem?_append_right (Nat.le_refl _),
    Nat.sub_self, ← List.head?_eq_getElem?]
  cases hr : runes after with
  | nil =>
    rw [← encode_runes after, hr] at hne
    exact absurd rfl hne
  | cons x xs => rwa [hr] at hhead

theorem exists_report (file : Bytes) {src : Bytes} {error : SourceError} {offset : Nat}
    (hpos : error.position = offset) (hb : Boundary src offset) (h : Anchored src offset)
    (hnames : ∀ name ∈ error.expected, Plain name) :
    ∃ row column shown pad, Report file src error row column shown pad ∧
      ∀ r, StandsAt src offset r → (runes shown)[column]? = some r := by
  obtain ⟨after, rest, n, hd, hascii, hline, htrimmed, hne⟩ := exists_shown h
  have hplace := locate_natCast hb.le_length
  rw [← hpos] at hplace
  have hrune (r : Rune) (hr : StandsAt src offset r) := hr.rune_at_column hd hascii (hne ⟨r, hr⟩)
  have hwithin : (runes (lastLine (src.take offset))).length ≤
      (runes (lastLine (src.take offset) ++ after)).length := by
    rw [runes_lastLine_append hb hd hascii, List.length_append]
    exact Nat.le_add_right _ _
  -- from here on only the bytes of the line count, not where they come from
  generalize (src.take offset).count newline = row at hline hplace
  generalize lastLine (src.take offset) = before at hline hplace hrune hwithin htrimmed
  have hpad := caretPad_eq hwithin
  refine ⟨row, (runes before).length, before ++ after,
    caretPad (before ++ after) ((runes before).length + 1), ⟨hplace, ?_, ⟨n, hline⟩, htrimmed,
    (SourceError.plain_message hnames).newline_notMem, ?_, ?_, hwithin⟩, hrune⟩
  · have hshown : dropTrailing carriageReturn ((lines src).getD row []) = before ++ after := by
      rw [List.getD_eq_getElem?_getD, hline]
      exact dropTrailing_append_replicate htrimmed n
    have hbreak : utf8 "\n    " = [newline] ++ utf8 "    " := rfl
    simp only [diagnose, Failure.source?, hplace, Nat.add_sub_cancel, hshown, Failure.message,
      hbreak, List.append_assoc]
  · rw [hpad, List.length_map, List.length_take, Nat.min_eq_left hwithin]
  · intro k hk
    have hget : k < (runes (before ++ after)).length := Nat.lt_of_lt_of_le hk hwithin
    rw [hpad, List.getElem?_map, List.getElem?_take_of_lt hk, List.getElem?_eq_getElem hget]
    simp

theorem Blamed.plain_expected {src : Bytes} {error : SourceError} (h : Blamed src error) :
    ∀ name ∈ error.expected, Plain name := by
  cases h with
  | token | ended => exact List.forall_mem_map.mpr fun k _ => k.plain_name
  | extra | bound | character => exact nofun

/-- An error is about what stands at its place, if anything does. -/
theorem Blamed.exists_place {src : Bytes} {error : SourceError} (h : Blamed src error) :
    ∃ offset : Nat, error.position = offset ∧ Boundary src offset ∧ Anchored src offset ∧
      ∀ shown column, (∀ r, StandsAt src offset r → (runes shown)[column]? = some r) →
        PointsAt shown column error := by
  cases h with
  | token ht | extra ht =>
    obtain ⟨offset, r, hpos, hr, hspell⟩ := exists_standsAt_of_token ht
    exact ⟨offset, hpos, hr.boundary, Or.inr ⟨r, hr⟩, fun _ _ hat => ⟨r, hat r hr, hspell⟩⟩
  | bound ht _ =>
    obtain ⟨offset, r, hpos, hr, -⟩ := exists_standsAt_of_token ht
    exact ⟨offset, hpos, hr.boundary, Or.inr ⟨r, hr⟩, fun _ _ _ => trivial⟩
  | character hc =>
    obtain ⟨offset, r, hpos, hr, hcode⟩ := exists_standsAt_of_badCharacter (List.mem_of_head? hc)
    exact ⟨offset, hpos, hr.boundary, Or.inr ⟨r, hr⟩, fun _ _ hat => ⟨r, hat r hr, hcode⟩⟩
  | ended _ =>
    obtain ⟨offset, hend, hb, hlast⟩ := exists_end_of_tokens src
    exact ⟨offset, hend, hb, Or.inl hlast, fun _ _ _ => trivial⟩

/-- The diagnostic of a failed compilation names the place of its error and shows the line there, with
a caret below the first rune of the token, or below the character, that is to blame; the line reaches
at least to the caret. -/
theorem diagnose_points_at_culprit (file src : Bytes) (collapse : Bool) (f : Failure)
    (h : compile src collapse = .error f) :
    ∃ error row column shown pad, f = .source error ∧
      Report file src error row column shown pad ∧ PointsAt shown column error := by
  obtain ⟨error, rfl, hblamed⟩ := exists_blamed_of_compile_error h
  obtain ⟨offset, hpos, hb, hanchored, hpoints⟩ := hblamed.exists_place
  obtain ⟨row, column, shown, pad, hreport, hat⟩ :=
    exists_report file hpos hb hanchored hblamed.plain_expected
  exact ⟨error, row, column, shown, pad, rfl, hreport, hpoints shown column hat⟩

/-- A dollar sign behind a tab and a letter of two bytes, in a line that ends in two carriage
returns. -/
theorem diagnose_dollar_behind_tab :
    let src := utf8 "top\tmod é $\r\r\n"
    compile src true = .error (.source (.invalidCharacter ⟨11, 0x24⟩)) ∧
      ∃ shown pad, Report (utf8 "a.si") src (.invalidCharacter ⟨11, 0x24⟩) 0 10 shown pad ∧
        PointsAt shown 10 (.invalidCharacter ⟨11, 0x24⟩) := by
  intro src
  have h : compile src true = .error (.source (.invalidCharacter ⟨11, 0x24⟩)) := rfl
  have hplace : locate src 11 = ⟨1, 11⟩ := rfl
  obtain ⟨error, row, column, shown, pad, he, hreport, hpoints⟩ :=
    diagnose_points_at_culprit (utf8 "a.si") src true _ h
  cases he
  cases hplace.symm.trans hreport.place
  exact ⟨h, shown, pad, hreport, hpoints⟩

end Bitwire
