import Bitwire.Lexeme
import Bitwire.Proofs.Decoding

/-! Scanning, said without scanning: a source is cut from left to right into blanks, comments, the
texts of tokens and runes that start none of these. Which cut is made at a place depends only on
the bytes from there on, and it is the one that the lexemes make. -/
namespace Bitwire

open Text
open String (utf8EncodeChar)

/-! ## Classes of characters -/

def wordStart (c : Char) : Bool := isLetter c || c == '_'

def wordPart (c : Char) : Bool := wordStart c || isNumber c

def blankCodes : List Nat := [
  0x09, 0x0A, 0x0B, 0x0C, 0x0D, 0x20, 0x85, 0xA0, 0x1680, 0x2000, 0x2001, 0x2002, 0x2003, 0x2004,
  0x2005, 0x2006, 0x2007, 0x2008, 0x2009, 0x200A, 0x2028, 0x2029, 0x202F, 0x205F, 0x3000]

theorem mem_blankCodes_of_isBlank {c : Char} (h : isBlank c = true) : c.toNat ∈ blankCodes := by
  simp only [isBlank, inRanges, blanks, Bool.and_eq_true, Bool.or_eq_true, decide_eq_true_eq,
    Bool.false_eq_true, or_false] at h
  simp only [blankCodes, List.mem_cons, List.not_mem_nil, or_false]
  omega

theorem category_of_isBlank {c : Char} (h : isBlank c = true) : category c = .other := by
  have hcodes : ∀ n ∈ blankCodes, inRanges n letters = false ∧ inRanges n decimals = false ∧
      inRanges n numbers = false ∧ inRanges n signs = false := by decide +kernel
  obtain ⟨hl, hd, hn, hs⟩ := hcodes c.toNat (mem_blankCodes_of_isBlank h)
  simp [category, hl, hd, hn, hs]

theorem wordPart_of_isBlank {c : Char} (h : isBlank c = true) : wordPart c = false := by
  have hc := category_of_isBlank h
  have hu : c ≠ '_' := by
    rintro rfl
    exact absurd h (by decide)
  simp [wordPart, wordStart, isLetter, isNumber, hc, hu]

theorem isDecimal_of_isBlank {c : Char} (h : isBlank c = true) : isDecimal c = false := by
  simp [isDecimal, category_of_isBlank h]

theorem wordPart_of_wordStart {c : Char} (h : wordStart c = true) : wordPart c = true := by
  simp [wordPart, h]

theorem wordStart_spec {c : Char} (h : wordStart c = true) : isBlank c = false ∧ c ≠ '/' := by
  constructor
  · cases hb : isBlank c with
    | false => rfl
    | true =>
      have hw := wordPart_of_isBlank hb
      rw [wordPart_of_wordStart h] at hw
      cases hw
  · rintro rfl
    exact absurd h (by decide)

theorem isDecimal_spec {c : Char} (h : isDecimal c = true) :
    isBlank c = false ∧ c ≠ '/' ∧ wordStart c = false := by
  have hcat : category c = .decimal := by simpa [isDecimal] using h
  refine ⟨?_, ?_, ?_⟩
  · cases hb : isBlank c with
    | false => rfl
    | true =>
      rw [isDecimal_of_isBlank hb] at h
      cases h
  · rintro rfl
    exact absurd h (by decide)
  · have hu : c ≠ '_' := by
      rintro rfl
      exact absurd h (by decide)
    simp [wordStart, isLetter, hcat, hu]

theorem isWordPart_stray (b : UInt8) : isWordPart (.stray b) = false := by
  have hc : wordPart '�' = false := by decide +kernel
  exact hc

theorem isDigit_stray (b : UInt8) : isDigit (.stray b) = false := by
  have hc : isDecimal '�' = false := by decide +kernel
  exact hc

/-! ## Cuts -/

/-- The kinds that are written with one or two characters that are no part of a word. -/
def Kind.symbols : List Kind := [
  .comma, .semicolon, .colon, .openParen, .closeParen, .openBrace, .closeBrace, .openBracket,
  .closeBracket, .equals, .tilde, .ampersand, .bar, .caret, .shiftLeft, .shiftRight]

theorem Kind.hasText_bare {kind : Kind} (h : kind ∈ Kind.keywords ++ Kind.symbols) :
    kind.hasText = false := by
  have ht : ∀ k ∈ Kind.keywords ++ Kind.symbols, k.hasText = false := by decide
  exact ht kind h

/-- A text that is skipped: a blank, or a comment up to a newline or the end of the source. -/
inductive Skipped : (text after : Bytes) → Prop
  | blank {c : Char} {after : Bytes} : isBlank c = true → Skipped (utf8EncodeChar c) after
  | comment {body after : Bytes} : newline ∉ body → (∀ b ∈ after.head?, b = newline) →
      Skipped (utf8 "//" ++ body) after

/-- A word that is no keyword. -/
def IsName (text : Bytes) : Prop :=
  (∃ c cs, text = encodeChars (c :: cs) ∧ wordStart c = true ∧ ∀ x ∈ cs, wordPart x = true) ∧
    ∀ k ∈ Kind.keywords, k.spelling ≠ text

theorem isName_encodeChars (c : Char) (cs : List Char) (hc : wordStart c = true)
    (hcs : cs.all wordPart = true) (hk : ∀ k ∈ Kind.keywords, k.spelling ≠ encodeChars (c :: cs)) :
    IsName (encodeChars (c :: cs)) :=
  ⟨⟨c, cs, rfl, hc, List.all_eq_true.mp hcs⟩, hk⟩

def IsDigits (text : Bytes) : Prop :=
  ∃ c cs, text = encodeChars (c :: cs) ∧ ∀ x ∈ c :: cs, isDecimal x = true

/-- A text that is a token before what comes after it. Words and literals are as long as they can
be. -/
inductive Spelled : Kind → (text after : Bytes) → Prop
  | name {text after : Bytes} :
      IsName text → NotNext wordPart after → Spelled .identifier text after
  | keyword {k : Kind} {after : Bytes} :
      k ∈ Kind.keywords → NotNext wordPart after → Spelled k k.spelling after
  | literal {text after : Bytes} :
      IsDigits text → NotNext isDecimal after → Spelled .literal text after
  | symbol {k : Kind} {after : Bytes} : k ∈ Kind.symbols → Spelled k k.spelling after

def StartsNothing (s : Bytes) : Prop :=
  ∀ text after, s = text ++ after → ¬ Skipped text after ∧ ∀ kind, ¬ Spelled kind text after

/-- One rune that starts nothing, with the character it counts as. -/
inductive Stuck : (text after : Bytes) → Char → Prop
  | char {c : Char} {after : Bytes} :
      StartsNothing (utf8EncodeChar c ++ after) → Stuck (utf8EncodeChar c) after c
  | stray {b : UInt8} {after : Bytes} : Undecodable (b :: after) → Stuck [b] after '�'

/-- The bytes of a source from an offset on, with the items they are cut into. -/
inductive Scans : (start : Nat) → Bytes → List Item → Prop
  | done {start : Nat} : Scans start [] []
  | skip {start : Nat} {text after : Bytes} {xs : List Item} :
      Skipped text after → Scans (start + text.length) after xs → Scans start (text ++ after) xs
  | token {start : Nat} {kind : Kind} {text after : Bytes} {xs : List Item} :
      Spelled kind text after → Scans (start + text.length) after xs →
      Scans start (text ++ after)
        (.token ⟨start, start + text.length, kind, if kind.hasText then text else []⟩ :: xs)
  | bad {start : Nat} {c : Char} {text after : Bytes} {xs : List Item} :
      Stuck text after c → Scans (start + text.length) after xs →
      Scans start (text ++ after) (.failure (.badCharacter ⟨start, c.toNat⟩) :: xs)

/-! ## The lexeme at a cut -/

/-- A text is the next lexeme when its runes stay what they are before the rest and make up the
lexeme there. -/
theorem lexemes_append {shape : Shape} {text after : Bytes} {r : Rune} {rs : List Rune}
    (htext : runes text = r :: rs) (happ : runes (text ++ after) = runes text ++ runes after)
    (hf : Lexeme.first r (rs ++ runes after) = ⟨shape, r :: rs⟩) :
    lexemes (text ++ after) = ⟨shape, runes text⟩ :: lexemes after := by
  unfold lexemes
  rw [happ, htext, List.cons_append, pieces_cons, hf]
  simp

theorem lexemes_blank {c : Char} (h : isBlank c = true) (after : Bytes) :
    lexemes (utf8EncodeChar c ++ after) =
      ⟨.blank, runes (utf8EncodeChar c)⟩ :: lexemes after := by
  have hr := runes_encodeChar c
  refine lexemes_append hr (by rw [runes_encodeChar_append, hr]; rfl) ?_
  have hb : Rune.isBlank (.scalar c) = true := h
  simp [Lexeme.first, hb]

theorem lexemes_comment {body after : Bytes} (hb : newline ∉ body)
    (ha : ∀ b ∈ after.head?, b = newline) :
    lexemes (utf8 "//" ++ body ++ after) =
      ⟨.comment, runes (utf8 "//" ++ body)⟩ :: lexemes after := by
  have hr : runes (utf8 "//" ++ body) = .scalar '/' :: .scalar '/' :: runes body :=
    runes_encodeChars_append ['/', '/'] body
  have hascii : ∀ b ∈ after.head?, b < 0x80 := by
    intro b h
    rw [ha b h]
    decide
  have hbody : ∀ r ∈ runes body, (r != .scalar '\n') = true := by
    intro r hr
    rw [bne_iff_ne]
    rintro rfl
    refine hb ?_
    rw [← encode_runes body]
    exact List.mem_flatMap.mpr ⟨_, hr, by decide⟩
  have hafter : (runes after).takeWhile (· != .scalar '\n') = [] := by
    cases after with
    | nil => rfl
    | cons b after =>
      obtain rfl := ha b rfl
      have h := runes_encodeChar_append '\n' after
      change runes (newline :: after) = _ at h
      simp [h]
  refine lexemes_append hr (runes_append_ascii _ hascii) ?_
  have hslash : Rune.isBlank (.scalar '/') = false := by decide
  simp only [Lexeme.first, hslash, Bool.false_eq_true, ↓reduceIte, List.cons_append,
    List.head?_cons, and_self]
  rw [List.takeWhile_cons_of_pos (by decide), List.takeWhile_append_of_pos hbody, hafter,
    List.append_nil]

theorem lexemes_word {c : Char} {cs : List Char} {after : Bytes} (hc : wordStart c = true)
    (hcs : ∀ x ∈ cs, wordPart x = true) (hn : NotNext wordPart after) :
    lexemes (encodeChars (c :: cs) ++ after) =
      ⟨.token ((Kind.ofWord? (encodeChars (c :: cs))).getD .identifier),
        runes (encodeChars (c :: cs))⟩ :: lexemes after := by
  have hr : runes (encodeChars (c :: cs)) = .scalar c :: cs.map .scalar :=
    runes_encodeChars (c :: cs)
  refine lexemes_append hr (by rw [runes_encodeChars_append, runes_encodeChars]) ?_
  obtain ⟨hb, hslash⟩ := wordStart_spec hc
  have hblank : Rune.isBlank (.scalar c) = false := hb
  have hword : isWordStart (.scalar c) = true := hc
  have htake : (cs.map Rune.scalar ++ runes after).takeWhile isWordPart = cs.map .scalar :=
    takeWhile_runes (fun _ => rfl) isWordPart_stray hcs hn
  have henc : encode (.scalar c :: cs.map .scalar) = encodeChars (c :: cs) :=
    encode_scalars (c :: cs)
  simp [Lexeme.first, hblank, hslash, hword, htake, henc]

theorem lexemes_literal {c : Char} {cs : List Char} {after : Bytes}
    (hcs : ∀ x ∈ c :: cs, isDecimal x = true) (hn : NotNext isDecimal after) :
    lexemes (encodeChars (c :: cs) ++ after) =
      ⟨.token .literal, runes (encodeChars (c :: cs))⟩ :: lexemes after := by
  have hr : runes (encodeChars (c :: cs)) = .scalar c :: cs.map .scalar :=
    runes_encodeChars (c :: cs)
  refine lexemes_append hr (by rw [runes_encodeChars_append, runes_encodeChars]) ?_
  have hc := hcs c List.mem_cons_self
  obtain ⟨hb, hslash, hw⟩ := isDecimal_spec hc
  have hblank : Rune.isBlank (.scalar c) = false := hb
  have hword : isWordStart (.scalar c) = false := hw
  have hdigit : isDigit (.scalar c) = true := hc
  have htake : (cs.map Rune.scalar ++ runes after).takeWhile isDigit = cs.map .scalar :=
    takeWhile_runes (fun _ => rfl) isDigit_stray (fun x hx => hcs x (List.mem_cons_of_mem c hx)) hn
  simp [Lexeme.first, hblank, hslash, hword, hdigit, htake]

theorem keyword_spec {k : Kind} (hk : k ∈ Kind.keywords) :
    Kind.ofWord? k.spelling = some k ∧ ∃ c cs, k.spelling = encodeChars (c :: cs) ∧
      wordStart c = true ∧ ∀ x ∈ cs, wordPart x = true := by
  simp only [Kind.keywords, List.mem_cons, List.not_mem_nil, or_false] at hk
  rcases hk with rfl | rfl | rfl | rfl | rfl | rfl
  · exact ⟨rfl, 'm', ['o', 'd'], rfl, by decide, List.all_eq_true.mp (by decide)⟩
  · exact ⟨rfl, 't', ['o', 'p'], rfl, by decide, List.all_eq_true.mp (by decide)⟩
  · exact ⟨rfl, 'i', ['n'], rfl, by decide, List.all_eq_true.mp (by decide)⟩
  · exact ⟨rfl, 'o', ['u', 't'], rfl, by decide, List.all_eq_true.mp (by decide)⟩
  · exact ⟨rfl, 'b', ['i', 't'], rfl, by decide, List.all_eq_true.mp (by decide)⟩
  · exact ⟨rfl, 'l', ['e', 't'], rfl, by decide, List.all_eq_true.mp (by decide)⟩

/-- Each symbol is a character, once or twice, of a class of its own. -/
theorem symbol_spec {k : Kind} (hk : k ∈ Kind.symbols) :
    ∃ c, isBlank c = false ∧ c ≠ '/' ∧ wordStart c = false ∧ isDecimal c = false ∧
      (Kind.ofSymbol? c = some k ∧ k.spelling = utf8EncodeChar c ∨
        Kind.ofSymbol? c = none ∧ Kind.ofDouble? c = some k ∧
          k.spelling = utf8EncodeChar c ++ utf8EncodeChar c) := by
  -- a search through the characters that are symbols, as a test that can be run
  have hsearch : (Kind.symbols.all fun k =>
      [',', ';', ':', '(', ')', '\x7b', '\x7d', '[', ']', '=', '~', '&', '|', '^', '<', '>'].any
        fun c => decide (isBlank c = false ∧ c ≠ '/' ∧ wordStart c = false ∧ isDecimal c = false ∧
          (Kind.ofSymbol? c = some k ∧ k.spelling = utf8EncodeChar c ∨
            Kind.ofSymbol? c = none ∧ Kind.ofDouble? c = some k ∧
              k.spelling = utf8EncodeChar c ++ utf8EncodeChar c))) = true := by
    decide +kernel
  obtain ⟨c, -, hc⟩ := List.any_eq_true.mp (List.all_eq_true.mp hsearch k hk)
  exact ⟨c, of_decide_eq_true hc⟩

theorem lexemes_symbol {k : Kind} (hk : k ∈ Kind.symbols) (after : Bytes) :
    lexemes (k.spelling ++ after) = ⟨.token k, runes k.spelling⟩ :: lexemes after := by
  obtain ⟨c, hb, hslash, hw, hd, hs⟩ := symbol_spec hk
  have hblank : Rune.isBlank (.scalar c) = false := hb
  have hword : isWordStart (.scalar c) = false := hw
  have hdigit : isDigit (.scalar c) = false := hd
  rcases hs with ⟨hs, he⟩ | ⟨hs, hdouble, he⟩
  · rw [he]
    refine lexemes_append (runes_encodeChar c)
      (by rw [runes_encodeChar_append, runes_encodeChar]; rfl) ?_
    simp [Lexeme.first, hblank, hslash, hword, hdigit, Rune.char, hs]
  · rw [he]
    have hr : runes (utf8EncodeChar c ++ utf8EncodeChar c) = [.scalar c, .scalar c] := by
      rw [runes_encodeChar_append, runes_encodeChar]
    refine lexemes_append hr ?_ ?_
    · rw [List.append_assoc, runes_encodeChar_append, runes_encodeChar_append, hr]
      rfl
    · simp [Lexeme.first, hblank, hslash, hword, hdigit, Rune.char, hs, hdouble]

theorem lexemes_spelled {kind : Kind} {text after : Bytes} (h : Spelled kind text after) :
    lexemes (text ++ after) = ⟨.token kind, runes text⟩ :: lexemes after := by
  cases h with
  | name ht hn =>
    obtain ⟨⟨c, cs, rfl, hc, hcs⟩, hk⟩ := ht
    have hnone : Kind.ofWord? (encodeChars (c :: cs)) = none := by
      rw [Kind.ofWord?, List.find?_eq_none]
      intro k hkw
      simpa using hk k hkw
    rw [lexemes_word hc hcs hn, hnone]
    rfl
  | keyword hk hn =>
    obtain ⟨hof, c, cs, he, hc, hcs⟩ := keyword_spec hk
    rw [he] at hof ⊢
    rw [lexemes_word hc hcs hn, hof]
    rfl
  | literal ht hn =>
    obtain ⟨c, cs, rfl, hcs⟩ := ht
    exact lexemes_literal hcs hn
  | symbol hk => exact lexemes_symbol hk after

theorem lexemes_skipped {text after : Bytes} (h : Skipped text after) :
    ∃ shape, (shape = .blank ∨ shape = .comment) ∧
      lexemes (text ++ after) = ⟨shape, runes text⟩ :: lexemes after := by
  cases h with
  | blank hc => exact ⟨.blank, Or.inl rfl, lexemes_blank hc after⟩
  | comment hb ha => exact ⟨.comment, Or.inr rfl, lexemes_comment hb ha⟩

/-! ## Where nothing starts -/

theorem not_startsNothing_of_skipped {text after : Bytes} (h : Skipped text after) :
    ¬ StartsNothing (text ++ after) :=
  fun hs => (hs text after rfl).1 h

theorem not_startsNothing_of_spelled {kind : Kind} {text after : Bytes}
    (h : Spelled kind text after) : ¬ StartsNothing (text ++ after) :=
  fun hs => (hs text after rfl).2 kind h

theorem not_startsNothing_of_slashes (rest : Bytes) :
    ¬ StartsNothing (utf8EncodeChar '/' ++ (utf8EncodeChar '/' ++ rest)) := by
  have hb : newline ∉ rest.takeWhile (· != newline) := by
    intro h
    simpa using List.all_eq_true.mp (List.all_takeWhile (l := rest)) _ h
  have ha : ∀ b ∈ (rest.dropWhile (· != newline)).head?, b = newline := by
    intro b h
    have := List.head?_dropWhile_not (· != newline) rest
    rw [h] at this
    simpa using this
  have h := not_startsNothing_of_skipped (Skipped.comment hb ha)
  rwa [List.append_assoc, List.takeWhile_append_dropWhile] at h

theorem not_startsNothing_of_wordStart {c : Char} (hc : wordStart c = true) (rest : Bytes) :
    ¬ StartsNothing (utf8EncodeChar c ++ rest) := by
  obtain ⟨cs, rest, rfl, hcs, hn⟩ := exists_span wordPart rest
  rw [← List.append_assoc, ← encodeChars_cons]
  by_cases hk : ∃ k ∈ Kind.keywords, k.spelling = encodeChars (c :: cs)
  · obtain ⟨k, hk, he⟩ := hk
    rw [← he]
    exact not_startsNothing_of_spelled (.keyword hk hn)
  · have ht : IsName (encodeChars (c :: cs)) :=
      ⟨⟨c, cs, rfl, hc, hcs⟩, fun k hkw he => hk ⟨k, hkw, he⟩⟩
    exact not_startsNothing_of_spelled (.name ht hn)

theorem not_startsNothing_of_isDecimal {c : Char} (hc : isDecimal c = true) (rest : Bytes) :
    ¬ StartsNothing (utf8EncodeChar c ++ rest) := by
  obtain ⟨cs, rest, rfl, hcs, hn⟩ := exists_span isDecimal rest
  rw [← List.append_assoc, ← encodeChars_cons]
  exact not_startsNothing_of_spelled (.literal ⟨c, cs, rfl, by simpa [hc] using hcs⟩ hn)

theorem not_startsNothing_of_ofSymbol? {c : Char} {k : Kind} (hc : Kind.ofSymbol? c = some k)
    (rest : Bytes) : ¬ StartsNothing (utf8EncodeChar c ++ rest) := by
  have hk : k ∈ Kind.symbols ∧ k.spelling = utf8EncodeChar c := by
    unfold Kind.ofSymbol? at hc
    split at hc <;> cases hc <;> exact ⟨by decide, rfl⟩
  rw [← hk.2]
  exact not_startsNothing_of_spelled (.symbol hk.1)

theorem not_startsNothing_of_ofDouble? {c : Char} {k : Kind} (hc : Kind.ofDouble? c = some k)
    (rest : Bytes) : ¬ StartsNothing (utf8EncodeChar c ++ (utf8EncodeChar c ++ rest)) := by
  have hk : k ∈ Kind.symbols ∧ k.spelling = utf8EncodeChar c ++ utf8EncodeChar c := by
    unfold Kind.ofDouble? at hc
    split at hc <;> cases hc <;> exact ⟨by decide, rfl⟩
  rw [← List.append_assoc, ← hk.2]
  exact not_startsNothing_of_spelled (.symbol hk.1)

theorem first_of_startsNothing {c : Char} {after : Bytes}
    (h : StartsNothing (utf8EncodeChar c ++ after)) :
    Lexeme.first (.scalar c) (runes after) = ⟨.bad, [.scalar c]⟩ := by
  have hblank : Rune.isBlank (.scalar c) = false := by
    cases hb : isBlank c with
    | false => exact hb
    | true => exact absurd h (not_startsNothing_of_skipped (.blank hb))
  have hcomment : ¬ (Rune.scalar c = .scalar '/' ∧ (runes after).head? = some (.scalar c)) := by
    rintro ⟨hs, hhead⟩
    cases hs
    obtain ⟨rest, rfl⟩ := head?_runes_eq_scalar hhead
    exact not_startsNothing_of_slashes rest h
  have hword : isWordStart (.scalar c) = false := by
    cases hw : wordStart c with
    | false => exact hw
    | true => exact absurd h (not_startsNothing_of_wordStart hw after)
  have hdigit : isDigit (.scalar c) = false := by
    cases hd : isDecimal c with
    | false => exact hd
    | true => exact absurd h (not_startsNothing_of_isDecimal hd after)
  have hsymbol : Kind.ofSymbol? c = none := by
    cases hs : Kind.ofSymbol? c with
    | none => rfl
    | some k => exact absurd h (not_startsNothing_of_ofSymbol? hs after)
  simp only [Lexeme.first, hblank, hcomment, hword, hdigit, Bool.false_eq_true, ↓reduceIte,
    Rune.char, hsymbol]
  split
  · next hn => cases hn
  · next hd =>
    rw [if_neg]
    intro hhead
    obtain ⟨rest, rfl⟩ := head?_runes_eq_scalar hhead
    exact not_startsNothing_of_ofDouble? hd rest h
  · rfl

theorem first_stray (b : UInt8) (rest : List Rune) :
    Lexeme.first (.stray b) rest = ⟨.bad, [.stray b]⟩ := by
  have hblank : Rune.isBlank (.stray b) = false := by
    have hc : isBlank '�' = false := by decide
    exact hc
  have hword : isWordStart (.stray b) = false := by
    have hc : wordStart '�' = false := by decide +kernel
    exact hc
  simp [Lexeme.first, hblank, hword, isDigit_stray, Rune.char, Kind.ofSymbol?, Kind.ofDouble?]

theorem lexemes_stuck {c : Char} {text after : Bytes} (h : Stuck text after c) :
    lexemes (text ++ after) = ⟨.bad, runes text⟩ :: lexemes after ∧
      (runes text).head?.map Rune.char = some c := by
  cases h with
  | char hs =>
    rw [runes_encodeChar]
    refine ⟨?_, rfl⟩
    rw [lexemes_append (runes_encodeChar c)
      (by rw [runes_encodeChar_append, runes_encodeChar]; rfl) (first_of_startsNothing hs),
      runes_encodeChar]
  | @stray b _ hu =>
    have hr : runes [b] = [.stray b] := by
      refine runes_of_undecodable fun c rest hc => ?_
      exact hu c (rest ++ after) (by rw [← List.append_assoc, ← hc]; rfl)
    rw [hr]
    refine ⟨?_, rfl⟩
    rw [lexemes_append hr (by rw [List.singleton_append, runes_of_undecodable hu, hr]; rfl)
      (first_stray b (runes after)), hr]

/-! ## Scanning and items -/

theorem items_of_scans {start : Nat} {s : Bytes} {xs : List Item} (h : Scans start s xs) :
    itemsFrom start (lexemes s) = xs := by
  have hwidth (shape : Shape) (text : Bytes) : (Lexeme.mk shape (runes text)).width = text.length :=
    congrArg List.length (encode_runes text)
  have hbytes (shape : Shape) (text : Bytes) : (Lexeme.mk shape (runes text)).bytes = text :=
    encode_runes text
  induction h with
  | done => rfl
  | skip hs _ ih =>
    obtain ⟨shape, hshape, hl⟩ := lexemes_skipped hs
    rcases hshape with rfl | rfl <;> simp [hl, itemsFrom, Lexeme.item?, hwidth, ih]
  | token hs _ ih => simp [lexemes_spelled hs, itemsFrom, Lexeme.item?, hwidth, hbytes, ih]
  | bad hs _ ih =>
    obtain ⟨hl, hc⟩ := lexemes_stuck hs
    obtain ⟨r, hr, rfl⟩ := Option.map_eq_some_iff.mp hc
    simp [hl, itemsFrom, Lexeme.item?, hwidth, hr, ih]

theorem Skipped.ne_nil {text after : Bytes} (h : Skipped text after) : text ≠ [] := by
  cases h with
  | blank _ => exact String.utf8EncodeChar_ne_nil
  | comment _ _ => exact fun h => absurd (List.append_eq_nil_iff.mp h).1 (by decide)

theorem Spelled.ne_nil {kind : Kind} {text after : Bytes} (h : Spelled kind text after) :
    text ≠ [] := by
  cases h with
  | name ht _ =>
    obtain ⟨⟨c, cs, rfl, -⟩, -⟩ := ht
    simp
  | keyword hk _ =>
    obtain ⟨-, c, cs, he, -⟩ := keyword_spec hk
    simp [he]
  | literal ht _ =>
    obtain ⟨c, cs, rfl, -⟩ := ht
    simp
  | symbol hk =>
    have hs : ∀ k ∈ Kind.symbols, k.spelling ≠ [] := by decide
    exact hs kind hk

theorem Stuck.ne_nil {c : Char} {text after : Bytes} (h : Stuck text after c) : text ≠ [] := by
  cases h with
  | char _ => exact String.utf8EncodeChar_ne_nil
  | stray _ => simp

/-- Every source can be cut to its end. -/
theorem exists_scans (start : Nat) (s : Bytes) : ∃ xs, Scans start s xs := by
  induction h : s.length using Nat.strongRecOn generalizing start s with
  | ind n ih =>
    have next {text after : Bytes} (hs : s = text ++ after) (hne : text ≠ []) :
        ∃ xs, Scans (start + text.length) after xs := by
      have hpos := List.length_pos_iff.mpr hne
      exact ih after.length (by rw [← h, hs, List.length_append]; omega) _ after rfl
    by_cases hcut : ∃ text after, s = text ++ after ∧
        (Skipped text after ∨ ∃ kind, Spelled kind text after)
    · obtain ⟨text, after, he, hskip | ⟨kind, hk⟩⟩ := hcut
      · obtain ⟨xs, hxs⟩ := next he hskip.ne_nil
        rw [he]
        exact ⟨xs, .skip hskip hxs⟩
      · obtain ⟨xs, hxs⟩ := next he hk.ne_nil
        rw [he]
        exact ⟨_, .token hk hxs⟩
    · have hs : StartsNothing s := fun text after he =>
        ⟨fun h => hcut ⟨text, after, he, .inl h⟩,
          fun kind h => hcut ⟨text, after, he, .inr ⟨kind, h⟩⟩⟩
      have hstuck : s = [] ∨ ∃ c text after, s = text ++ after ∧ Stuck text after c := by
        rcases exists_char_or_undecodable s with ⟨c, rest, rfl⟩ | hu
        · exact Or.inr ⟨c, _, rest, rfl, .char hs⟩
        · cases s with
          | nil => exact Or.inl rfl
          | cons b s => exact Or.inr ⟨_, [b], s, rfl, .stray hu⟩
      rcases hstuck with rfl | ⟨c, text, after, he, hc⟩
      · exact ⟨[], .done⟩
      · obtain ⟨xs, hxs⟩ := next he hc.ne_nil
        rw [he]
        exact ⟨_, .bad hc hxs⟩

theorem scans_iff {start : Nat} {s : Bytes} {xs : List Item} :
    Scans start s xs ↔ xs = itemsFrom start (lexemes s) := by
  constructor
  · intro h
    exact (items_of_scans h).symm
  · rintro rfl
    obtain ⟨xs, hxs⟩ := exists_scans start s
    rwa [items_of_scans hxs]

end Bitwire
