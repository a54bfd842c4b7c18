import Bitwire.Proofs.Building
import Bitwire.Proofs.Layout
import Bitwire.Proofs.Locations
import Bitwire.Proofs.Messages
import Mathlib.Data.List.Forall2

/-! A listing shows a source item by item, a row for each, and its tokens can be read back. No token
and no quoted character holds a tab or a newline, so that rows and their fields are told apart; and a
class with the bytes of a token leaves one kind that the token can have. -/
namespace Bitwire.Command

open Text

/-! ## Rows and fields -/

/-- The lines of an output of which every line is ended. -/
def rows (out : Bytes) : List Bytes := (lines out).dropLast

def fields (row : Bytes) : List Bytes := row.splitOn tab

/-- The middle field of a row tells whether it shows a bad character. -/
def isErrorRow (row : Bytes) : Bool := (fields row)[1]? == some (utf8 "error")

def tokenRows (out : Bytes) : List Bytes := (rows out).filter (! isErrorRow ·)

def errorRows (out : Bytes) : List Bytes := (rows out).filter isErrorRow

theorem fields_append {a b c : Bytes} (ha : tab ∉ a) (hb : tab ∉ b) (hc : tab ∉ c) :
    fields (a ++ tab :: (b ++ tab :: c)) = [a, b, c] := by
  rw [fields, List.splitOn_append_cons_self_of_not_mem ha,
    List.splitOn_append_cons_self_of_not_mem hb, List.splitOn_eq_singleton hc]

theorem fields_injective : Function.Injective fields := by
  intro row row' h
  calc row = [tab].intercalate (fields row) := (List.intercalate_splitOn tab).symm
    _ = [tab].intercalate (fields row') := by rw [h]
    _ = row' := List.intercalate_splitOn tab

/-! ## What rows show -/

/-- The classes of kinds. -/
inductive InClass : Kind → Bytes → Prop
  | identifier : InClass .identifier (utf8 "identifier")
  | literal : InClass .literal (utf8 "literal")
  | keyword {k : Kind} : k ∈ Kind.keywords → InClass k (utf8 "keyword")
  | symbol {k : Kind} : k ∈ Kind.symbols → InClass k (utf8 "symbol")

/-- The row of a token: its range, its class and the bytes of the range. -/
def ShowsToken (src : Bytes) (t : Token) (row : Bytes) : Prop :=
  ∃ (i j : Nat) (cls : Bytes), t.start = i ∧ t.stop = j ∧ InClass t.kind cls ∧
    fields row = [decimal i ++ utf8 ".." ++ decimal j, cls, slice src i j]

/-- The row of a bad character: its line and column, and the character quoted. -/
def ShowsFailure (src : Bytes) (f : Failure) (row : Bytes) : Prop :=
  ∃ c, f = .badCharacter c ∧ fields row =
    [decimal (locate src c.position).line ++ utf8 ":" ++ decimal (locate src c.position).column,
      utf8 "error", quoteChar c.code]

def ShowsItem (src : Bytes) : Item → Bytes → Prop
  | .token t => ShowsToken src t
  | .failure f => ShowsFailure src f

/-- An output that lists a source: ended lines, one for each item and in the order of the items. The
middle field tells those with tokens from those with bad characters. -/
structure Lists (src out : Bytes) : Prop where
  ended : out = (rows out).flatMap (· ++ [newline])
  items : List.Forall₂ (ShowsItem src) (items src) (rows out)
  tabs : ∀ row ∈ rows out, row.count tab = 2
  tokens : List.Forall₂ (ShowsToken src) (Bitwire.tokens src) (tokenRows out)
  failures : List.Forall₂ (ShowsFailure src) (lexicalFailures src) (errorRows out)

/-! ## The row of an item -/

theorem InClass.eq_className {kind : Kind} {cls : Bytes} (h : InClass kind cls) :
    cls = kind.className := by
  have hkeywords : ∀ k ∈ Kind.keywords, utf8 "keyword" = k.className := by decide
  have hsymbols : ∀ k ∈ Kind.symbols, utf8 "symbol" = k.className := by decide
  cases h with
  | identifier | literal => rfl
  | keyword hk => exact hkeywords kind hk
  | symbol hk => exact hsymbols kind hk

theorem inClass_className {kind : Kind} {text after : Bytes} (h : Spelled kind text after) :
    InClass kind kind.className := by
  have hclass : ∃ cls, InClass kind cls := by
    cases h with
    | name => exact ⟨_, .identifier⟩
    | literal => exact ⟨_, .literal⟩
    | keyword hk => exact ⟨_, .keyword hk⟩
    | symbol hk => exact ⟨_, .symbol hk⟩
  obtain ⟨cls, hcls⟩ := hclass
  rwa [← hcls.eq_className]

theorem InClass.plain {kind : Kind} {cls : Bytes} (h : InClass kind cls) : Plain cls := by
  cases h <;> decide

theorem InClass.ne_error {kind : Kind} {cls : Bytes} (h : InClass kind cls) :
    cls ≠ utf8 "error" := by
  cases h <;> decide

/-- Three fields without tabs and newlines make up a row. -/
theorem row_of_fields {a b c : Bytes} (ha : Plain a) (hb : Plain b) (htab : tab ∉ c)
    (hnewline : newline ∉ c) : fields (a ++ tab :: (b ++ tab :: c)) = [a, b, c] ∧
      newline ∉ a ++ tab :: (b ++ tab :: c) := by
  refine ⟨fields_append (ha.notMem (by decide)) (hb.notMem (by decide)) htab, ?_⟩
  have hne : newline ≠ tab := by decide
  simp [ha.newline_notMem, hb.newline_notMem, hnewline, hne]

theorem exists_row {src : Bytes} {x : Item} (h : x ∈ items src) :
    ∃ row, itemLine src x = row ++ [newline] ∧ newline ∉ row ∧ ShowsItem src x row := by
  have htab : utf8 "\t" = [tab] := rfl
  have hnewline : utf8 "\n" = [newline] := rfl
  have herror : utf8 "\terror\t" = tab :: (utf8 "error" ++ [tab]) := rfl
  obtain ⟨i, j, -, -, hreads⟩ := exists_readsAt_of_mem_items h
  match x, hreads with
  | .token t, ⟨hi, hj, hspell, _⟩ =>
    have hclass := inClass_className hspell
    have hrange : Plain (decimal i ++ utf8 ".." ++ decimal j) :=
      ((plain_decimal i).append (by decide)).append (plain_decimal j)
    have hbytes : tab ∉ slice src i j :=
      hspell.made.notMem (a := '\t') rfl (by decide) (by decide)
    obtain ⟨hfields, hline⟩ :=
      row_of_fields hrange hclass.plain hbytes hspell.made_inLine.newline_notMem
    refine ⟨_, ?_, hline, i, j, _, hi, hj, hclass, hfields⟩
    rw [itemLine, tokenLine, hi, hj, Int.toNat_natCast, Int.toNat_natCast, htab, hnewline]
    simp [signedDecimal]
  | .failure (.badCharacter c), _ =>
    have hplace : Plain (decimal (locate src c.position).line ++ utf8 ":" ++
        decimal (locate src c.position).column) :=
      ((plain_decimal _).append (by decide)).append (plain_decimal _)
    have hquote := plain_quoteChar c.code
    obtain ⟨hfields, hline⟩ :=
      row_of_fields (b := utf8 "error") hplace (by decide) (hquote.notMem (by decide))
        hquote.newline_notMem
    refine ⟨_, ?_, hline, c, rfl, hfields⟩
    rw [itemLine, Failure.badCharacter?, Option.map_some, Option.getD_some, badCharacterLine,
      herror, hnewline]
    simp

/-! ## The rows of a listing -/

theorem exists_rows {src : Bytes} {xs : List Item} (h : ∀ x ∈ xs, x ∈ items src) :
    ∃ rs, xs.flatMap (itemLine src) = rs.flatMap (· ++ [newline]) ∧ (∀ row ∈ rs, newline ∉ row) ∧
      List.Forall₂ (ShowsItem src) xs rs := by
  induction xs with
  | nil => exact ⟨[], rfl, List.forall_mem_nil _, .nil⟩
  | cons x xs ih =>
    obtain ⟨hx, hxs⟩ := List.forall_mem_cons.mp h
    obtain ⟨row, hline, hrow, hshows⟩ := exists_row hx
    obtain ⟨rs, hlines, hrs, hall⟩ := ih hxs
    refine ⟨row :: rs, ?_, List.forall_mem_cons.mpr ⟨hrow, hrs⟩, .cons hshows hall⟩
    rw [List.flatMap_cons, List.flatMap_cons, hline, hlines]

theorem ShowsToken.isErrorRow_eq {src row : Bytes} {t : Token} (h : ShowsToken src t row) :
    isErrorRow row = false := by
  obtain ⟨i, j, cls, -, -, hclass, hfields⟩ := h
  simpa [isErrorRow, hfields] using hclass.ne_error

theorem ShowsFailure.isErrorRow_eq {src row : Bytes} {f : Failure} (h : ShowsFailure src f row) :
    isErrorRow row = true := by
  obtain ⟨c, -, hfields⟩ := h
  simp [isErrorRow, hfields]

theorem ShowsItem.count_tab {src row : Bytes} {x : Item} (h : ShowsItem src x row) :
    row.count tab = 2 := by
  have hlength : (fields row).length = 3 := by
    cases x with
    | token t =>
      obtain ⟨i, j, cls, -, -, -, hfields⟩ := h
      rw [hfields]
      rfl
    | failure f =>
      obtain ⟨c, -, hfields⟩ := h
      rw [hfields]
      rfl
  rw [fields, length_splitOn] at hlength
  omega

/-- The middle field sorts the rows as the items are sorted. -/
theorem forall₂_sorted {src : Bytes} {xs : List Item} {rs : List Bytes}
    (h : List.Forall₂ (ShowsItem src) xs rs) :
    List.Forall₂ (ShowsToken src) (xs.filterMap Item.token?) (rs.filter (! isErrorRow ·)) ∧
      List.Forall₂ (ShowsFailure src) (xs.filterMap Item.failure?) (rs.filter isErrorRow) := by
  induction h with
  | nil => exact ⟨.nil, .nil⟩
  | @cons x row xs rs hx _ ih =>
    cases x with
    | token t =>
      have herror := ShowsToken.isErrorRow_eq hx
      simp only [List.filterMap_cons, List.filter_cons, Item.token?, Item.failure?, herror]
      exact ⟨.cons hx ih.1, ih.2⟩
    | failure f =>
      have herror := ShowsFailure.isErrorRow_eq hx
      simp only [List.filterMap_cons, List.filter_cons, Item.token?, Item.failure?, herror]
      exact ⟨ih.1, .cons hx ih.2⟩

theorem rows_flatMap {rs : List Bytes} (h : ∀ row ∈ rs, newline ∉ row) :
    rows (rs.flatMap (· ++ [newline])) = rs := by
  rw [rows, lines_flatMap h, List.dropLast_concat]

theorem lists_listing (src : Bytes) : Lists src (listing src) := by
  obtain ⟨rs, hlines, hrs, hall⟩ := @exists_rows src (items src) fun _ hx => hx
  obtain ⟨htokens, hfailures⟩ := forall₂_sorted hall
  have hrows : rows (listing src) = rs := by
    rw [listing, hlines, rows_flatMap hrs]
  have htabs : ∀ row ∈ rs, row.count tab = 2 :=
    ((List.forall₂_and_left rs (items src)).mp
      (hall.flip.imp fun _ _ hx => ⟨ShowsItem.count_tab hx, hx⟩)).1
  constructor
  · rw [hrows, listing, hlines]
  · rwa [hrows]
  · rwa [hrows]
  · rw [tokenRows, hrows]
    exact htokens
  · rw [errorRows, hrows]
    exact hfailures

/-! ## Reading rows back -/

theorem decimal_injective : Function.Injective decimal := by
  intro m n h
  have hrunes : (Nat.toDigits 10 m).map Rune.scalar = (Nat.toDigits 10 n).map Rune.scalar := by
    rw [← runes_encodeChars, ← runes_encodeChars]
    exact congrArg runes h
  have hscalar : Function.Injective Rune.scalar := fun c d hcd => by
    cases hcd
    rfl
  have hdigits := List.map_injective_iff.mpr hscalar hrunes
  rw [← Nat.ofDigitChars_ten_toDigits (n := m), hdigits, Nat.ofDigitChars_ten_toDigits]

/-- A numeral ends at the first dot. -/
theorem range_injective {i j i' j' : Nat}
    (h : decimal i ++ utf8 ".." ++ decimal j = decimal i' ++ utf8 ".." ++ decimal j') :
    i = i' ∧ j = j' := by
  have hdots : utf8 ".." = [0x2E, 0x2E] := rfl
  have hdot (n : Nat) : (0x2E : UInt8) ∉ decimal n :=
    (made_decimal n).notMem (a := '.') rfl (by decide) (by decide)
  rw [hdots, List.append_assoc, List.append_assoc] at h
  obtain ⟨hi, hj⟩ := Verilog.append_cons_inj (hdot i) (hdot i') h
  exact ⟨decimal_injective hi, decimal_injective (List.cons.inj hj).2⟩

/-- The kinds of the language are told apart by their classes and spellings. -/
theorem kind_told_apart : ∀ k ∈ Kind.all, ∀ k' ∈ Kind.all, k.className = k'.className →
    k.hasText = k'.hasText ∧ (k.spelling = k'.spelling → k = k') := by
  -- names and literals have no spelling, but each has a class of its own
  decide +kernel

theorem mem_all_of_writable {key : Key} (h : Writable key) : key.1 ∈ Kind.all := by
  have hkeywords : ∀ k ∈ Kind.keywords, k ∈ Kind.all := by decide
  have hsymbols : ∀ k ∈ Kind.symbols, k ∈ Kind.all := by decide
  cases h with
  | name | literal => simp [Kind.all]
  | keyword hk => exact hkeywords _ hk
  | symbol hk => exact hsymbols _ hk

theorem spelling_of_writable {key : Key} (h : Writable key) :
    key.1.spelling = if key.1.hasText then [] else spell key := by
  cases h with
  | name | literal => rfl
  | keyword hk =>
    rw [Kind.hasText_bare (List.mem_append_left _ hk), spell_bare (List.mem_append_left _ hk)]
    rfl
  | symbol hk =>
    rw [Kind.hasText_bare (List.mem_append_right _ hk), spell_bare (List.mem_append_right _ hk)]
    rfl

/-- A class and the bytes of a token leave one thing that the token can say. -/
theorem key_told_apart {key key' : Key} (h : Writable key) (h' : Writable key')
    (hclass : key.1.className = key'.1.className) (hspell : spell key = spell key') :
    key = key' := by
  obtain ⟨hhas, hkind⟩ :=
    kind_told_apart key.1 (mem_all_of_writable h) key'.1 (mem_all_of_writable h') hclass
  refine Prod.ext (hkind ?_) ?_
  · rw [spelling_of_writable h, spelling_of_writable h', hhas, hspell]
  · rw [← text_of_writable h, ← text_of_writable h', hhas, hspell]

/-- A row by its token alone, without the source. -/
def RowOf (t : Token) (row : Bytes) : Prop :=
  Writable t.key ∧ ∃ i j : Nat, t.start = i ∧ t.stop = j ∧
    fields row = [decimal i ++ utf8 ".." ++ decimal j, t.kind.className, spell t.key]

theorem ShowsToken.rowOf {src row : Bytes} {t : Token} (h : ShowsToken src t row)
    (ht : t ∈ Bitwire.tokens src) : RowOf t row := by
  obtain ⟨i, j, cls, hi, hj, hclass, hfields⟩ := h
  -- the range of the row is the one that the token was read from
  obtain ⟨i', j', -, -, hi', hj', hspell, htext⟩ :=
    exists_readsAt_of_mem_items (mem_items_of_mem_tokens ht)
  obtain rfl : i' = i := Int.ofNat.inj (hi'.symm.trans hi)
  obtain rfl : j' = j := Int.ofNat.inj (hj'.symm.trans hj)
  rw [RowOf, Token.key, htext]
  refine ⟨hspell.writable, i', j', hi, hj, ?_⟩
  rw [hspell.spell_eq, ← hclass.eq_className, hfields]

/-- A row can be read back. -/
theorem rowOf_leftUnique : Relator.LeftUnique RowOf := by
  rintro t t' row ⟨hw, i, j, hi, hj, hfields⟩ ⟨hw', i', j', hi', hj', hfields'⟩
  rw [hfields, List.cons.injEq, List.cons.injEq, List.cons.injEq] at hfields'
  obtain ⟨hrange, hclass, hspell, -⟩ := hfields'
  obtain ⟨rfl, rfl⟩ := range_injective hrange
  obtain ⟨hkind, htext⟩ := Prod.mk.inj (key_told_apart hw hw' hclass hspell)
  rw [Token.mk.injEq]
  exact ⟨hi.trans hi'.symm, hj.trans hj'.symm, hkind, htext⟩

/-- A row says nothing that its token does not. -/
theorem rowOf_rightUnique : Relator.RightUnique RowOf := by
  rintro t row row' ⟨-, i, j, hi, hj, hfields⟩ ⟨-, i', j', hi', hj', hfields'⟩
  obtain rfl : i = i' := Int.ofNat.inj (hi.symm.trans hi')
  obtain rfl : j = j' := Int.ofNat.inj (hj.symm.trans hj')
  exact fields_injective (hfields.trans hfields'.symm)

theorem Lists.rowOf {src out : Bytes} (h : Lists src out) :
    List.Forall₂ RowOf (Bitwire.tokens src) (tokenRows out) := by
  have hboth := (List.forall₂_and_left (Bitwire.tokens src) (tokenRows out)).mpr
    ⟨fun _ ht => ht, h.tokens⟩
  exact hboth.imp fun _ _ ht => ht.2.rowOf ht.1

/-- Listing a file that can be read succeeds and shows its items, each in a row of three fields. The
rows with tokens say as much as the tokens of the source: they are the same for two sources exactly
when the tokens are, with their kinds, texts and places. -/
theorem tokens_lists_losslessly (store : FileStore (StateM Disk)) (disk : Disk) :
    (∀ path src, Readable store disk path src → ∃ out,
      (tokens [path] : StateM Disk Outcome).run disk = (.success out, disk) ∧
      (run [utf8 "tokens", path] : StateM Disk Ending).run disk = (⟨0, out, []⟩, disk) ∧
      Lists src out) ∧
    ∀ src src' out out', Lists src out → Lists src' out' →
      (tokenRows out = tokenRows out' ↔ Bitwire.tokens src = Bitwire.tokens src') := by
  constructor
  · intro path src hr
    have htokens : (tokens [path] : StateM Disk Outcome).run disk =
        (.success (listing src), disk) := by
      rw [tokens, run_bind_of_run hr.2]
      rfl
    refine ⟨listing src, htokens, ?_, lists_listing src⟩
    rw [run, if_neg (by decide), if_pos rfl, run_bind_of_run htokens]
    rfl
  · intro src src' out out' h h'
    constructor
    · intro hrows
      have hrow' := h'.rowOf
      rw [← hrows] at hrow'
      exact List.left_unique_forall₂' rowOf_leftUnique h.rowOf hrow'
    · intro htokens
      have hrow' := h'.rowOf
      rw [← htokens] at hrow'
      exact List.right_unique_forall₂' rowOf_rightUnique h.rowOf hrow'

/-- Bad characters behind the last token add rows of their own and leave the others as they are. -/
theorem listing_with_bad_characters :
    let src := utf8 "let é\t<<$" ++ [0xFF]
    let src' := utf8 "let é\t<<"
    let out' := utf8 "0..3\tkeyword\tlet\n4..6\tidentifier\té\n7..9\tsymbol\t<<\n"
    let out := out' ++ utf8 "1:9\terror\t'$'\n1:10\terror\t'�'\n"
    let disk : Disk := ⟨[utf8 "work"],
      [([utf8 "work", utf8 "a"], src), ([utf8 "work", utf8 "b"], src')]⟩
    (Readable Disk.fileStore disk (utf8 "a") src ∧ Readable Disk.fileStore disk (utf8 "b") src') ∧
      (tokens [utf8 "a"] : StateM Disk Outcome).run disk = (.success out, disk) ∧
      (tokens [utf8 "b"] : StateM Disk Outcome).run disk = (.success out', disk) ∧
      Lists src out ∧ Lists src' out' ∧ tokenRows out = tokenRows out' := by
  intro src src' out' out disk
  have hr : Readable Disk.fileStore disk (utf8 "a") src := ⟨rfl, rfl⟩
  have hr' : Readable Disk.fileStore disk (utf8 "b") src' := ⟨rfl, rfl⟩
  obtain ⟨hlists, hrows⟩ := tokens_lists_losslessly Disk.fileStore disk
  obtain ⟨o, hrun, -, ho⟩ := hlists (utf8 "a") src hr
  obtain ⟨o', hrun', -, ho'⟩ := hlists (utf8 "b") src' hr'
  have hsrc : listing src = out := by decide +kernel
  have hsrc' : listing src' = out' := by decide +kernel
  have htokens : Bitwire.tokens src = Bitwire.tokens src' := by decide +kernel
  have hout : (tokens [utf8 "a"] : StateM Disk Outcome).run disk = (.success out, disk) := by
    rw [← hsrc]
    rfl
  have hout' : (tokens [utf8 "b"] : StateM Disk Outcome).run disk = (.success out', disk) := by
    rw [← hsrc']
    rfl
  cases hrun.symm.trans hout
  cases hrun'.symm.trans hout'
  exact ⟨⟨hr, hr'⟩, hout, hout', ho, ho', (hrows src src' _ _ ho ho').mpr htokens⟩

end Bitwire.Command
