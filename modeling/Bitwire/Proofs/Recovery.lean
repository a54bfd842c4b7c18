import Bitwire.Proofs.Lexing
import Bitwire.Proofs.Lines
import Bitwire.Proofs.Partition

/-! Bad characters cost nothing but themselves. If the rune of each is overwritten with spaces, the
source has no bad characters any more and the tokens it had, each where it was. -/
namespace Bitwire

open Text
open String (utf8EncodeChar)

/-! ## Blanking out -/

/-- The number of bytes of the rune at an offset. -/
def runeWidth (src : Bytes) (offset : Nat) : Nat :=
  ((runes (src.drop offset)).head?.map Rune.width).getD 0

/-- Puts spaces in the place of as many bytes from an offset on. -/
def overwrite (s : Bytes) (offset width : Nat) : Bytes :=
  s.take offset ++ List.replicate width space ++ s.drop (offset + width)

/-- Overwrites the rune that a failure of a source is about. -/
def overwriteFailure (src s : Bytes) (f : Failure) : Bytes :=
  match f.badCharacter? with
  | some c => overwrite s c.position.toNat (runeWidth src c.position.toNat)
  | none => s

/-- The source with the runes of all its bad characters overwritten. -/
def blankOut (src : Bytes) : Bytes := (lexicalFailures src).foldl (overwriteFailure src) src

theorem overwrite_append (before text after : Bytes) :
    overwrite (before ++ (text ++ after)) before.length text.length =
      before ++ List.replicate text.length space ++ after := by
  rw [overwrite, List.take_left, ← List.append_assoc, ← List.length_append, List.drop_left]

theorem Stuck.runeWidth_eq {c : Char} {text after src : Bytes} {offset : Nat}
    (h : Stuck text after c) (hd : src.drop offset = text ++ after) :
    runeWidth src offset = text.length := by
  obtain ⟨r, hr, rfl, -⟩ := h.exists_rune
  rw [runeWidth, hd, hr]
  rfl

/-! ## What a cut sees of what follows -/

/-- Two texts with the same beginning, or the second with a space where the first has some other rune
that is no newline. -/
inductive BlanksHead : Bytes → Bytes → Prop
  | nil : BlanksHead [] []
  | kept {c : Char} {s s' : Bytes} : BlanksHead (utf8EncodeChar c ++ s) (utf8EncodeChar c ++ s')
  | blanked {b : UInt8} {s s' : Bytes} : b ≠ newline → BlanksHead (b :: s) (space :: s')

namespace BlanksHead

variable {s s' : Bytes}

theorem notNext {p : Char → Bool} (hp : p ' ' = false) (h : BlanksHead s s') (hn : NotNext p s) :
    NotNext p s' := by
  cases h with
  | nil => exact hn
  | kept => exact notNext_char (hn _ _ rfl) _
  | blanked _ => exact notNext_char (c := ' ') hp _

theorem newline_head (h : BlanksHead s s') (hs : ∀ b ∈ s.head?, b = newline) :
    ∀ b ∈ s'.head?, b = newline := by
  cases h with
  | nil => exact hs
  | kept =>
    rwa [List.head?_append_of_ne_nil _ String.utf8EncodeChar_ne_nil] at hs ⊢
  | blanked hb => exact absurd (hs _ rfl) hb

theorem skipped (h : BlanksHead s s') {text : Bytes} (ht : Skipped text s) : Skipped text s' := by
  cases ht with
  | blank hc => exact .blank hc
  | comment hb ha => exact .comment hb (h.newline_head ha)

theorem spelled (h : BlanksHead s s') {kind : Kind} {text : Bytes} (ht : Spelled kind text s) :
    Spelled kind text s' := by
  cases ht with
  | name ht hn => exact .name ht (h.notNext (by decide) hn)
  | keyword hk hn => exact .keyword hk (h.notNext (by decide) hn)
  | literal ht hn => exact .literal ht (h.notNext (by decide) hn)
  | symbol hk => exact .symbol hk

end BlanksHead

theorem Skipped.exists_head {text after : Bytes} (h : Skipped text after) :
    ∃ c rest, text = utf8EncodeChar c ++ rest := by
  cases h with
  | @blank c _ => exact ⟨c, [], (List.append_nil _).symm⟩
  | @comment body _ => exact ⟨'/', utf8EncodeChar '/' ++ body, rfl⟩

theorem BlanksHead.of_exists_head {text : Bytes} (h : ∃ c rest, text = utf8EncodeChar c ++ rest)
    (s s' : Bytes) : BlanksHead (text ++ s) (text ++ s') := by
  obtain ⟨c, rest, rfl⟩ := h
  rw [List.append_assoc, List.append_assoc]
  exact .kept

theorem Stuck.blanksHead {c : Char} {text s : Bytes} (h : Stuck text s c) (s' : Bytes) :
    BlanksHead (text ++ s) (List.replicate text.length space ++ s') := by
  have hn : newline ∉ text := h.notMem (a := '\n') rfl (by decide) (by decide)
  cases text with
  | nil => exact absurd rfl h.ne_nil
  | cons b text =>
    refine .blanked ?_
    rintro rfl
    exact hn List.mem_cons_self

/-! ## Recovery -/

theorem gap_spaces (n : Nat) (after : Bytes) : Gap (List.replicate n space) after := by
  induction n with
  | zero => exact .nil
  | succ n ih =>
    have hspace : isBlank ' ' = true := by decide
    exact .cons (.blank hspace) ih

/-- Blanking out goes along with scanning: what was scanned before is not touched any more, and what
is left scans to the tokens alone. -/
theorem exists_blanked {start : Nat} {s : Bytes} {xs : List Item} (h : Scans start s xs)
    {src : Bytes} (hd : src.drop start = s) (before : Bytes) (hb : before.length = start) :
    ∃ s', (xs.filterMap Item.failure?).foldl (overwriteFailure src) (before ++ s) = before ++ s' ∧
      BlanksHead s s' ∧ s'.length = s.length ∧
      Scans start s' ((xs.filterMap Item.token?).map .token) := by
  -- offsets count from the start of the source, so that what was scanned goes along in `before`,
  -- already blanked out
  induction h generalizing before with
  | done => exact ⟨[], rfl, .nil, rfl, .done⟩
  | @skip start text after xs ht _ ih =>
    obtain ⟨s', hfold, hhead, hlen, hscan⟩ :=
      ih (range_of_drop_eq hd).2 (before ++ text) (by rw [List.length_append, hb])
    refine ⟨text ++ s', ?_, .of_exists_head ht.exists_head _ _, by simp [hlen],
      .skip (hhead.skipped ht) hscan⟩
    rw [← List.append_assoc, hfold, List.append_assoc]
  | @token start kind text after xs ht _ ih =>
    obtain ⟨s', hfold, hhead, hlen, hscan⟩ :=
      ih (range_of_drop_eq hd).2 (before ++ text) (by rw [List.length_append, hb])
    refine ⟨text ++ s', ?_, .of_exists_head ht.exists_head _ _, by simp [hlen],
      .token (hhead.spelled ht) hscan⟩
    rw [← List.append_assoc]
    exact hfold.trans (List.append_assoc ..)
  | @bad start c text after xs ht _ ih =>
    obtain ⟨s', hfold, hhead, hlen, hscan⟩ :=
      ih (range_of_drop_eq hd).2 (before ++ List.replicate text.length space)
        (by rw [List.length_append, List.length_replicate, hb])
    refine ⟨List.replicate text.length space ++ s', ?_, ht.blanksHead s', by simp [hlen], ?_⟩
    · have hstep : overwriteFailure src (before ++ (text ++ after))
          (.badCharacter ⟨start, c.toNat⟩) = before ++ List.replicate text.length space ++ after := by
        simp only [overwriteFailure, Failure.badCharacter?, Int.toNat_natCast]
        rw [ht.runeWidth_eq hd, ← hb, overwrite_append]
      rw [← hstep] at hfold
      exact hfold.trans (List.append_assoc ..)
    · refine scans_of_gap (gap_spaces _ _) ?_
      rwa [List.length_replicate]

/-- Overwriting the bad characters of a source with spaces leaves no bad character and all of the
tokens, with their kinds, texts and places. -/
theorem tokens_blankOut (src : Bytes) :
    lexicalFailures (blankOut src) = [] ∧ tokens (blankOut src) = tokens src ∧
      (blankOut src).length = src.length := by
  obtain ⟨s', hfold, -, hlen, hscan⟩ :=
    exists_blanked (scans_iff.mpr rfl : Scans 0 src (items src)) rfl [] rfl
  have hs : blankOut src = s' := hfold
  have hitems : items (blankOut src) = (tokens src).map .token ++ [] := by
    rw [hs, List.append_nil]
    exact (scans_iff.mp hscan).symm
  obtain ⟨htokens, hfailures⟩ := tokens_of_items_eq hitems
  refine ⟨hfailures, ?_, hs ▸ hlen⟩
  rw [htokens, List.filterMap_nil, List.append_nil]

/-- The bytes of a sequence that is cut short, the third of three angle brackets and a lone slash; what
stands in a comment is kept. -/
example : blankOut (utf8 "a" ++ [0xE2, 0x82] ++ utf8 "<<</ //$") = utf8 "a  <<   //$" := by
  decide +kernel

end Bitwire
