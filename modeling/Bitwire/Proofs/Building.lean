import Bitwire.Command.Line
import Bitwire.Proofs.Compiling
import Bitwire.Proofs.Storing

/-! A build leaves the compiled text under the output path and touches nothing else, or it leaves
every file alone. Only a write that fails once the output is open can spoil that one file. A build
that fails says so once. -/
namespace Bitwire.Command

/-! ## Stores -/

/-- What may come of a content to be written: it is on the disk; or the file could not be opened,
and nothing is different; or something failed once the file was open, and it may hold anything. -/
inductive Disk.Attempted (before : Disk) (path content : Bytes) :
    Except FileError Unit → Disk → Prop
  | stored {after : Disk} : before.write path content = .ok after →
      Attempted before path content (.ok ()) after
  | unopened {e : FileError} : e.action = .opening →
      Attempted before path content (.error e) before
  | broken {e : FileError} {after : Disk} : e.action = .writing ∨ e.action = .closing →
      (after = before ∨ ∃ part, before.write path part = .ok after) →
      Attempted before path content (.error e) after

/-- A store over a disk may refuse any request, for causes of its own. A request that it grants has
the answer and the effect that it has on the disk. -/
structure Serves (store : FileStore (StateM Disk)) : Prop where
  reading : ∀ path disk, (∃ e, (store.readFile path).run disk = (.error e, disk)) ∨
    ∃ content, disk.read path = .ok content ∧
      (store.readFile path).run disk = (.ok content, disk)
  writing : ∀ {path content disk answer after},
    (store.writeFile path content).run disk = (answer, after) →
      disk.Attempted path content answer after

theorem Disk.attempted_of_error {disk : Disk} {path part : Bytes} {e : FileError}
    (h : disk.write path part = .error e) (content : Bytes) :
    disk.Attempted path content (.error e) disk := by
  obtain ha | ha := Disk.action_of_write h
  · exact .unopened ha
  · exact .broken (Or.inl ha) (Or.inl rfl)

theorem Disk.run_writeFile (disk : Disk) (path content : Bytes) :
    (Disk.fileStore.writeFile path content).run disk =
      match disk.write path content with
      | .ok after => (.ok (), after)
      | .error e => (.error e, disk) := by
  cases h : disk.write path content with
  | error e | ok after =>
    simp only [FileStore.writeFile, StateT.run_bind, StateT.run_get, pure_bind, h]
    rfl

theorem serves_disk : Serves Disk.fileStore where
  reading path disk := by
    have hrun : (Disk.fileStore.readFile path).run disk = (disk.read path, disk) := rfl
    cases h : disk.read path with
    | error e => exact Or.inl ⟨e, by rw [hrun, h]⟩
    | ok content => exact Or.inr ⟨content, rfl, by rw [hrun, h]⟩
  writing {path content disk answer after} h := by
    rw [Disk.run_writeFile] at h
    cases hw : disk.write path content with
    | error e =>
      rw [hw] at h
      cases h
      exact Disk.attempted_of_error hw content
    | ok written =>
      rw [hw] at h
      cases h
      exact .stored hw

/-! ## How a build may end -/

/-- The line that tells the user of an error. -/
def errorLine (message : Bytes) : Bytes := utf8 "error: " ++ message ++ utf8 "\n"

section

variable (store : FileStore (StateM Disk)) (args : List Bytes) (before : Disk)

/-- The store lets the file under the path be read. -/
def Readable (path content : Bytes) : Prop :=
  before.read path = .ok content ∧ (store.readFile path).run before = (.ok content, before)

/-- The arguments name a file that can be read but not compiled. -/
def Uncompilable : Prop :=
  ∃ s src f, readOptions args = (s, none) ∧ Readable store before s.input src ∧
    compile src s.collapse = .error f

/-- Why a build fails: the error it returns, what it has told the user by then, the one report that
the user has seen when the program ends, and the disk it leaves. That disk is the same as before,
unless the output could not be written once it was open. -/
inductive Refused : CommandError → (told report : Bytes) → Disk → Prop
  | arguments {s : Settings} {e : OptionError} (hs : readOptions args = (s, some e))
      (hne : e ≠ .help) : Refused (.options e) [] (errorLine e.message) before
  | input {s : Settings} {e : FileError} (hs : readOptions args = (s, none))
      (hr : (store.readFile s.input).run before = (.error e, before)) :
      Refused (.file e) [] (errorLine e.message) before
  | source {s : Settings} {src : Bytes} {e : SourceError} (hs : readOptions args = (s, none))
      (hr : Readable store before s.input src)
      (hc : compile src s.collapse = .error (.source e)) :
      Refused .reported (diagnose s.input src (.source e) ++ utf8 "\n")
        (diagnose s.input src (.source e) ++ utf8 "\n") before
  | unopened {s : Settings} {src text : Bytes} {e : FileError}
      (hs : readOptions args = (s, none)) (hr : Readable store before s.input src)
      (hc : compile src s.collapse = .ok text) (ha : e.action = .opening)
      (hw : (store.writeFile s.output text).run before = (.error e, before)) :
      Refused (.file e) [] (errorLine e.message) before
  | unwritten {s : Settings} {src text : Bytes} {e : FileError} {after : Disk}
      (hs : readOptions args = (s, none)) (hr : Readable store before s.input src)
      (hc : compile src s.collapse = .ok text) (ha : e.action = .writing ∨ e.action = .closing)
      (hw : (store.writeFile s.output text).run before = (.error e, after))
      (hafter : after = before ∨ ∃ part, before.Stored after s.output part) :
      Refused (.file e) [] (errorLine e.message) after

inductive Way
  | built | helped | failed
  deriving DecidableEq, Repr

/-- What a build may come to: its outcome, how the program that ran it ends, and the disk it
leaves. -/
inductive Ends : Outcome → Ending → Disk → Way → Prop
  | built {s : Settings} {src text : Bytes} {after : Disk} (hs : readOptions args = (s, none))
      (hr : Readable store before s.input src) (hc : compile src s.collapse = .ok text)
      (hw : before.Stored after s.output text) : Ends ⟨[], [], none⟩ ⟨0, [], []⟩ after .built
  | helped {s : Settings} (hs : readOptions args = (s, some .help)) :
      Ends ⟨buildUsage, [], none⟩ ⟨0, buildUsage, []⟩ before .helped
  | failed {error : CommandError} {told report : Bytes} {after : Disk}
      (h : Refused store args before error told report after) :
      Ends ⟨[], told, some error⟩ ⟨1, [], report⟩ after .failed

end

/-! ## Running a build -/

section

variable {store : FileStore (StateM Disk)} {args : List Bytes} {before after : Disk}

theorem Readable.unique {path src src' : Bytes} (h : Readable store before path src)
    (h' : Readable store before path src') : src = src' :=
  Except.ok.inj (h.1.symm.trans h'.1)

theorem run_bind_of_run {α β : Type} {x : StateM Disk α} {a : α} (h : x.run before = (a, after))
    (f : α → StateM Disk β) : (x >>= f).run before = (f a).run after := by
  rw [StateT.run_bind, h]
  rfl

/-- The steps of a build in order, each with the way to end that it opens. -/
theorem exists_ends_buildWith (h : Serves store) {s : Settings}
    (hs : readOptions args = (s, none)) :
    ∃ o after way, (buildWith s : StateM Disk Outcome).run before = (o, after) ∧
      Ends store args before o o.ending after way := by
  obtain ⟨e, hr⟩ | ⟨src, hsrc, hr⟩ := h.reading s.input before
  · refine ⟨.failure (.file e), before, .failed, ?_, .failed (.input hs hr)⟩
    rw [buildWith, run_bind_of_run hr]
    rfl
  have hreadable : Readable store before s.input src := ⟨hsrc, hr⟩
  rw [buildWith, run_bind_of_run hr]
  obtain ⟨text, hc⟩ | ⟨e, hc⟩ := compile_ok_or_source src s.collapse
  · simp only [hc]
    rcases hw : (store.writeFile s.output text).run before with ⟨answer, after⟩
    rw [run_bind_of_run hw]
    cases h.writing hw with
    | stored hstored =>
      exact ⟨_, after, .built, rfl, .built hs hreadable hc (Disk.stored_of_write hstored)⟩
    | unopened ha => exact ⟨_, before, .failed, rfl, .failed (.unopened hs hreadable hc ha hw)⟩
    | broken ha hafter =>
      have hspoiled : after = before ∨ ∃ part, before.Stored after s.output part :=
        hafter.imp_right fun ⟨part, hpart⟩ => ⟨part, Disk.stored_of_write hpart⟩
      exact ⟨_, after, .failed, rfl, .failed (.unwritten hs hreadable hc ha hw hspoiled)⟩
  · simp only [hc]
    exact ⟨_, before, .failed, rfl, .failed (.source hs hreadable hc)⟩

theorem exists_ends_build (h : Serves store) (args : List Bytes) (before : Disk) :
    ∃ o after way, (build args : StateM Disk Outcome).run before = (o, after) ∧
      Ends store args before o o.ending after way := by
  rcases hs : readOptions args with ⟨s, stop⟩
  simp only [build, hs]
  cases stop with
  | none => exact exists_ends_buildWith h hs
  | some e =>
    by_cases he : e = .help
    · subst he
      exact ⟨.success buildUsage, before, .helped, rfl, .helped hs⟩
    · refine ⟨.failure (.options e), before, .failed, ?_, .failed (.arguments hs he)⟩
      cases e with
      | help => exact absurd rfl he
      | _ => rfl

theorem Ends.way_eq {o : Outcome} {ending : Ending} {way : Way}
    (h : Ends store args before o ending after way) :
    way = if o.error.isSome then .failed
      else if (readOptions args).2 = some .help then .helped else .built := by
  cases h with
  | built hs => simp [hs]
  | helped hs => simp [hs]
  | failed => simp

theorem not_uncompilable_of_ok {s : Settings} {src text : Bytes}
    (hs : readOptions args = (s, none)) (hr : Readable store before s.input src)
    (hc : compile src s.collapse = .ok text) : ¬Uncompilable store args before := by
  rintro ⟨s', src', f, hs', hr', hc'⟩
  obtain rfl : s' = s := congrArg Prod.fst (hs'.symm.trans hs)
  obtain rfl : src' = src := hr'.unique hr
  cases hc'.symm.trans hc

theorem Refused.reported_iff {error : CommandError} {told report : Bytes}
    (h : Refused store args before error told report after) :
    error = .reported ↔ Uncompilable store args before := by
  cases h with
  | arguments hs => simp [Uncompilable, hs]
  | @input s e hs hr =>
    refine ⟨nofun, ?_⟩
    rintro ⟨s', src, f, hs', hr', -⟩
    obtain rfl : s' = s := congrArg Prod.fst (hs'.symm.trans hs)
    cases hr'.2.symm.trans hr
  | source hs hr hc => exact iff_of_true rfl ⟨_, _, _, hs, hr, hc⟩
  | unopened hs hr hc | unwritten hs hr hc =>
    exact iff_of_false nofun (not_uncompilable_of_ok hs hr hc)

theorem Ends.reported_iff {o : Outcome} {ending : Ending} {way : Way}
    (h : Ends store args before o ending after way) :
    o.error = some .reported ↔ Uncompilable store args before := by
  cases h with
  | built hs hr hc => exact iff_of_false nofun (not_uncompilable_of_ok hs hr hc)
  | helped hs => simp [Uncompilable, hs]
  | failed h => rw [Option.some.injEq, h.reported_iff]

end

/-- A store on which no file has room for more than so many bytes. -/
abbrev Disk.cramped (room : Nat) : FileStore (StateM Disk) where
  readFile := Disk.fileStore.readFile
  writeFile path content := do
    match ← Disk.fileStore.writeFile path (content.take room) with
    | .error e => return .error e
    | .ok () =>
      if content.length ≤ room then return .ok ()
      else return .error ⟨.writing, path, .noSpace⟩

theorem serves_cramped (room : Nat) : Serves (Disk.cramped room) where
  reading := serves_disk.reading
  writing {path content disk answer after} h := by
    rcases hrun : (Disk.fileStore.writeFile path (content.take room)).run disk with ⟨part, written⟩
    have hpart := serves_disk.writing hrun
    change (Disk.fileStore.writeFile path (content.take room) >>= _).run disk = _ at h
    rw [run_bind_of_run hrun] at h
    cases hpart with
    | stored hw =>
      by_cases hroom : content.length ≤ room
      · simp only [if_pos hroom] at h
        cases h
        rw [List.take_of_length_le hroom] at hw
        exact .stored hw
      · simp only [if_neg hroom] at h
        cases h
        exact .broken (Or.inl rfl) (Or.inr ⟨_, hw⟩)
    | unopened ha =>
      cases h
      exact .unopened ha
    | broken ha hafter =>
      cases h
      exact .broken ha hafter

end Bitwire.Command
