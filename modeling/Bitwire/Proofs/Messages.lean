import Bitwire.Proofs.Lines

/-! Messages hold no control characters, whatever the source holds: texts that are quoted have theirs
escaped, and all else is fixed words and numerals. So a message never spans lines. -/
namespace Bitwire

open Text
open String (utf8EncodeChar)

/-- A text without control characters. -/
def Plain (s : Bytes) : Prop := s.all (0x20 ≤ ·) = true

instance (s : Bytes) : Decidable (Plain s) := inferInstanceAs (Decidable (_ = true))

theorem plain_iff {s : Bytes} : Plain s ↔ ∀ b ∈ s, 0x20 ≤ b := by
  simp [Plain]

namespace Plain

theorem append {s s' : Bytes} (h : Plain s) (h' : Plain s') : Plain (s ++ s') := by
  rw [plain_iff] at h h' ⊢
  exact List.forall_mem_append.mpr ⟨h, h'⟩

theorem flatMap {α : Type} {xs : List α} {f : α → Bytes} (h : ∀ x ∈ xs, Plain (f x)) :
    Plain (xs.flatMap f) := by
  rw [plain_iff]
  intro b hb
  obtain ⟨x, hx, hbx⟩ := List.mem_flatMap.mp hb
  exact plain_iff.mp (h x hx) b hbx

theorem intercalate {sep : Bytes} {ss : List Bytes} (hsep : Plain sep) (h : ∀ s ∈ ss, Plain s) :
    Plain (sep.intercalate ss) := by
  induction ss with
  | nil => exact rfl
  | cons s ss ih =>
    obtain ⟨hs, hss⟩ := List.forall_mem_cons.mp h
    cases ss with
    | nil => rwa [List.intercalate_singleton]
    | cons s' ss =>
      rw [List.intercalate_cons_cons]
      exact (hs.append hsep).append (ih hss)

theorem notMem {s : Bytes} (h : Plain s) {b : UInt8} (hb : b < 0x20) : b ∉ s := by
  intro hmem
  exact absurd hb (UInt8.not_lt.mpr (plain_iff.mp h b hmem))

theorem newline_notMem {s : Bytes} (h : Plain s) : newline ∉ s :=
  h.notMem (by decide)

end Plain

/-! ## Numerals and quoted texts -/

/-- A control byte stands only for the control character itself. -/
theorem plain_encodeChar {c : Char} (h : 0x20 ≤ c.toNat) : Plain (utf8EncodeChar c) := by
  have hcontrol : ∀ n < 0x20, utf8EncodeChar (Char.ofNat n) = [UInt8.ofNat n] ∧
      (Char.ofNat n).toNat = n := by decide
  rw [plain_iff]
  intro b hb
  refine UInt8.not_lt.mp fun hlt => ?_
  rw [UInt8.lt_iff_toNat_lt] at hlt
  obtain ⟨hencode, hcode⟩ := hcontrol b.toNat hlt
  rw [UInt8.ofNat_toNat] at hencode
  have hascii : b < 0x80 := UInt8.lt_iff_toNat_lt.mpr (Nat.lt_trans hlt (by decide))
  rw [eq_of_mem_encodeChar hencode hascii hb, hcode] at h
  exact absurd hlt (Nat.not_lt.mpr h)

theorem made_decimal (n : Nat) : Made Char.isDigit (decimal n) :=
  ⟨Nat.toDigits 10 n, rfl, fun _ hc => Nat.isDigit_of_mem_toDigits (by decide) (by decide) hc⟩

theorem plain_decimal (n : Nat) : Plain (decimal n) := by
  obtain ⟨cs, he, hcs⟩ := made_decimal n
  rw [he]
  refine Plain.flatMap fun c hc => plain_encodeChar ?_
  have hdigit := hcs c hc
  simp only [Char.isDigit, ge_iff_le, Bool.and_eq_true, decide_eq_true_eq] at hdigit
  exact Nat.le_trans (by decide) (UInt32.le_iff_toNat_le.mp hdigit.1)

theorem plain_signedDecimal (n : Int) : Plain (signedDecimal n) := by
  cases n with
  | ofNat n => exact plain_decimal n
  | negSucc n => exact Plain.append (by decide) (plain_decimal (n + 1))

theorem plain_hex (width n : Nat) : Plain (hex width n) := by
  have hdigit : ∀ d < 16, 0x20 ≤ (Nat.digitChar d).toNat := by decide
  induction width generalizing n with
  | zero => exact rfl
  | succ width ih =>
    exact (ih _).append (plain_encodeChar (hdigit _ (Nat.mod_lt n (by decide))))

theorem le_of_isPrintable {c : Char} (h : isPrintable c = true) : 0x20 ≤ c.toNat := by
  have hcontrol : ∀ n < 0x20, inRanges n letters = false ∧ inRanges n decimals = false ∧
      inRanges n numbers = false ∧ inRanges n signs = false := by decide
  refine Nat.not_lt.mp fun hlt => ?_
  obtain ⟨hl, hd, hn, hs⟩ := hcontrol c.toNat hlt
  have hspace : c ≠ ' ' := by
    rintro rfl
    exact absurd hlt (by decide)
  simp [isPrintable, category, hl, hd, hn, hs, hspace] at h

theorem le_of_shortEscape? {c e : Char} (h : shortEscape? c = some e) : 0x20 ≤ e.toNat := by
  unfold shortEscape? at h
  split at h
  case h_8 => cases h
  all_goals
    cases h
    decide

theorem plain_escape {delimiter : Char} (hd : 0x20 ≤ delimiter.toNat) (r : Rune) :
    Plain (escape delimiter r) := by
  cases r with
  | stray b => exact Plain.append (by decide) (plain_hex 2 b.toNat)
  | scalar c =>
    simp only [escape]
    split
    · next hc =>
      have hcode : 0x20 ≤ c.toNat := by
        rcases hc with rfl | rfl
        · exact hd
        · decide
      exact Plain.append (by decide) (plain_encodeChar hcode)
    · split
      · next hp => exact plain_encodeChar (le_of_isPrintable hp)
      · split
        · next e he => exact Plain.append (by decide) (plain_encodeChar (le_of_shortEscape? he))
        · split
          · exact Plain.append (by decide) (plain_hex 2 c.toNat)
          · split
            · exact Plain.append (by decide) (plain_hex 4 c.toNat)
            · exact Plain.append (by decide) (plain_hex 8 c.toNat)

theorem plain_quote (s : Bytes) : Plain (quote s) :=
  (Plain.append (by decide) (Plain.flatMap fun r _ => plain_escape (by decide) r)).append (by decide)

theorem plain_quoteChar (code : Int) : Plain (quoteChar code) :=
  (Plain.append (by decide) (plain_escape (by decide) _)).append (by decide)

/-! ## Errors -/

theorem Kind.plain_name (k : Kind) : Plain k.name := by
  cases k with
  | unknown code => exact (Plain.append (by decide) (plain_signedDecimal code)).append (by decide)
  | _ => decide

theorem Token.plain_describe (t : Token) : Plain t.describe := by
  unfold describe
  split
  · exact plain_quote t.text
  · exact t.kind.plain_name

namespace SourceError

theorem plain_expectation {expected : List Bytes} (h : ∀ name ∈ expected, Plain name) :
    Plain (expectation expected) := by
  unfold expectation
  split
  · exact rfl
  · next name => exact Plain.append (by decide) (h name List.mem_cons_self)
  · exact Plain.append (by decide) (Plain.intercalate (by decide) h)

/-- The names that an error says were expected. -/
def expected : SourceError → List Bytes
  | unexpected _ _ names => names
  | _ => []

theorem plain_message {error : SourceError} (h : ∀ name ∈ error.expected, Plain name) :
    Plain error.message := by
  cases error with
  | invalidToken position => exact Plain.append (by decide) (plain_signedDecimal position)
  | unexpected token position names =>
    cases token with
    | none => exact Plain.append (by decide) (plain_expectation h)
    | some t => exact (Plain.append (by decide) t.plain_describe).append (plain_expectation h)
  | extraToken t => exact (Plain.append (by decide) t.plain_describe).append (by decide)
  | invalidCharacter c => exact Plain.append (by decide) (plain_quoteChar c.code)

end SourceError

end Bitwire
