import SafeRefactor.Command.Run
import SafeRefactor.Proofs.SafePlans

/-!
# What the apply command writes

The command may write two files: the one it was given, and the one that takes its report. A sound
disk replaces a file by a whole text, and a write changes neither any other file nor what a path
leads to. So the given file either stays as it was or holds the new text of a live run that went
through all checks.
-/

set_option autoImplicit false

namespace SafeRefactor

namespace Store

variable {s : Store} {l m : Location}

theorem item?_put_self (i : Item) (hl : l ≠ []) : (s.put l i).item? l = some i := by
  simp [item?, put, hl]

theorem lookup_filter_of_ne (items : List (Location × Item)) (h : m ≠ l) :
    (items.filter fun e => e.1 ≠ l).lookup m = items.lookup m := by
  induction items with
  | nil => rfl
  | cons e items ih =>
    obtain ⟨k, i⟩ := e
    by_cases hk : k = l
    · have hne : (m == l) = false := by simpa using h
      simpa [hk, List.lookup_cons, hne] using ih
    · by_cases hm : m = k
      · simp [hk, hm]
      · have hne : (m == k) = false := by simpa using hm
        simpa [hk, List.lookup_cons, hne] using ih

/-- A put changes nothing but what is at its location. -/
theorem item?_put_of_ne (i : Item) (h : m ≠ l) : (s.put l i).item? m = s.item? m := by
  have hne : (m == l) = false := by simpa using h
  simp only [item?, put, List.lookup_cons, hne]
  rw [lookup_filter_of_ne s.items h]

theorem target_eq_ok_iff {cwd : Location} {path : String} :
    s.target cwd path = .ok l ↔ s.locate cwd path = .ok l ∧ s.item? l ≠ some .directory := by
  unfold target
  cases hlocate : s.locate cwd path with
  | ok m =>
    by_cases hdir : s.item? m = some .directory
    · constructor
      · intro h
        simp [hdir] at h
      · rintro ⟨h, hne⟩
        cases h
        exact absurd hdir hne
    · constructor
      · intro h
        simp only [hdir, if_false, Except.ok.injEq] at h
        subst h
        exact ⟨rfl, hdir⟩
      · rintro ⟨h, -⟩
        simp [hdir, h]
  | error e =>
    simp only [reduceCtorEq, false_and, iff_false]
    cases s.locate cwd (String.ofList (Text.dropEndWhile (· = '/') path.toList)) with
    | ok m => by_cases hm : (s.item? m).isNone = true <;> simp [hm]
    | error e => simp

theorem write_eq_writeAt {cwd : Location} {path : String} (hlocate : s.locate cwd path = .ok l)
    (hfile : s.item? l ≠ some .directory) (text : String) (d : Disk) :
    s.write cwd path text d = s.writeAt l text d := by
  rw [write, target_eq_ok_iff.mpr ⟨hlocate, hfile⟩]

/-- A sound disk puts a text where its path leads, unless that is a directory. -/
theorem write_eq_ok_iff {cwd : Location} {path text : String} {s' : Store} :
    s.write cwd path text = .ok s' ↔ ∃ l, s.locate cwd path = .ok l ∧
      s.item? l ≠ some .directory ∧ s' = s.put l (.file (.text text)) := by
  constructor
  · intro h
    cases htarget : s.target cwd path with
    | ok l =>
      obtain ⟨hlocate, hfile⟩ := target_eq_ok_iff.mp htarget
      rw [write_eq_writeAt hlocate hfile] at h
      exact ⟨l, hlocate, hfile, (Except.ok.inj h).symm⟩
    | error e => simp [write, htarget] at h
  · rintro ⟨l, hlocate, hfile, rfl⟩
    rw [write_eq_writeAt hlocate hfile]
    rfl

theorem read_eq_ok_iff {cwd : Location} {path text : String} : s.read cwd path = .ok text ↔
    ∃ l, s.locate cwd path = .ok l ∧ s.item? l = some (.file (.text text)) := by
  unfold read
  cases s.locate cwd path with
  | error e => simp
  | ok m =>
    simp only [Except.ok.injEq, exists_eq_left']
    unfold readAt
    rcases s.item? m with _ | ⟨⟨t⟩ | _ | _⟩ | _ <;> simp

/-- Replacing a file leaves all directories as they are. -/
theorem expectDirectory_put {c d : Content} (h : s.item? l = some (.file c)) (m : Location) :
    (s.put l (.file d)).expectDirectory m = s.expectDirectory m := by
  unfold expectDirectory
  by_cases hm : m = l
  · have hl : l ≠ [] := by
      rintro rfl
      simp [item?] at h
    rw [hm, item?_put_self _ hl, h]
  · rw [item?_put_of_ne _ hm]

theorem follow_put {c d : Content} (h : s.item? l = some (.file c)) (start : Location)
    (pieces : List (List Char)) :
    (s.put l (.file d)).follow start pieces = s.follow start pieces := by
  induction pieces generalizing start with
  | nil => rfl
  | cons piece pieces ih =>
    rw [follow, follow, expectDirectory_put h]
    simp only [ih]

/-- Replacing a file changes no path. -/
theorem locate_put {c d : Content} (h : s.item? l = some (.file c)) (cwd : Location)
    (path : String) :
    (s.put l (.file d)).locate cwd path = s.locate cwd path := by
  unfold locate
  split
  · rfl
  · exact follow_put h _ _
  · exact follow_put h _ _

end Store

namespace Command

/-- What the apply command works on, and how that went. -/
structure Attempt where
  source : String
  plan : Plan
  execution : Execution

section

variable (p : Place) (settings : Settings) (o : ApplyOptions)

/-- The override of a command: given with it, or set. -/
def override : Bool := o.allowReview || settings.allowReview

/-- The attempt that the command makes, if its rules are known and its file can be read. -/
def attempt? : Option Attempt :=
  match settings.resolve none none, p.store.read p.cwd o.file with
  | .ok selection, .ok source =>
    let engine : Engine := { selection, allowReview := override settings o }
    let plan := engine.analyze ⟨source, some o.file⟩
    some ⟨source, plan, engine.execute source plan (!o.live)⟩
  | _, _ => none

/-- The command puts a text in place of the file at a location: it was asked to write that file, and
its live run succeeded with a text that is not the old one. -/
structure Rewrites (l : Location) (a : Attempt) (text : String) : Prop where
  names : p.store.locate p.cwd o.file = .ok l
  attempted : attempt? p settings o = some a
  asked : o.write = true
  live : o.live = true
  success : a.execution.success = true
  made : a.execution.after = some text
  changed : text ≠ a.source

end

section

variable {p : Place} {settings : Settings} {o : ApplyOptions} {a : Attempt} {l : Location}
  {text : String}

theorem attempt?_eq_some (h : attempt? p settings o = some a) :
    ∃ selection, settings.resolve none none = .ok selection ∧
      p.store.read p.cwd o.file = .ok a.source ∧
      a.plan = Engine.analyze { selection } ⟨a.source, some o.file⟩ ∧
      a.execution = Execution.run ⟨!o.live, override settings o⟩ a.source a.plan := by
  unfold attempt? at h
  cases hresolve : settings.resolve none none with
  | error f => simp [hresolve] at h
  | ok selection =>
    cases hread : p.store.read p.cwd o.file with
    | error e => simp [hresolve, hread] at h
    | ok source =>
      simp only [hresolve, hread, Option.some.injEq] at h
      subst h
      exact ⟨selection, rfl, rfl, rfl, rfl⟩

/-- The file that an attempt was made on. -/
theorem attempt?_file (h : attempt? p settings o = some a) :
    ∃ l, p.store.locate p.cwd o.file = .ok l ∧ p.store.item? l = some (.file (.text a.source)) := by
  obtain ⟨selection, -, hread, -, -⟩ := attempt?_eq_some h
  exact Store.read_eq_ok_iff.mp hread

theorem Rewrites.file (h : Rewrites p settings o l a text) :
    p.store.item? l = some (.file (.text a.source)) := by
  obtain ⟨m, hm, hitem⟩ := attempt?_file h.attempted
  rw [h.names, Except.ok.injEq] at hm
  rw [hm, hitem]

theorem newText?_eq_some_iff (e : Execution) (source : String) :
    newText? e source = some text ↔ e.after = some text ∧ e.success = true ∧ text ≠ source := by
  unfold newText?
  cases e.after with
  | none => simp
  | some t =>
    simp only [Option.some.injEq]
    constructor
    · intro h
      split at h
      · next hc =>
        cases h
        exact ⟨rfl, hc⟩
      · cases h
    · rintro ⟨rfl, hc⟩
      rw [if_pos hc]

/-- What the command reports of an attempt. -/
def report (settings : Settings) (o : ApplyOptions) (a : Attempt) : String :=
  applyOutput a.plan a.execution (o.format.getD settings.format)

/-- The files after the new text was written back, whether or not there was one to write. -/
def written (p : Place) (o : ApplyOptions) (a : Attempt) (d : Disk := {}) : Store :=
  match writeBack p o a.execution a.source d with
  | .ok (store, _) => store
  | .error e => e.store

theorem Rewrites.write (h : Rewrites p settings o l a text) (d : Disk) :
    p.store.write p.cwd o.file text d = p.store.writeAt l text d :=
  Store.write_eq_writeAt h.names (by simp [h.file]) text d

theorem Rewrites.newText? (h : Rewrites p settings o l a text) :
    newText? a.execution a.source = some text :=
  (newText?_eq_some_iff a.execution a.source).mpr ⟨h.made, h.success, h.changed⟩

theorem written_of_rewrites (h : Rewrites p settings o l a text) :
    written p o a = p.store.put l (.file (.text text)) := by
  simp [written, writeBack, h.asked, h.newText?, h.write, Store.writeAt]

/-- Where the command rewrites no file, it writes nothing back. -/
theorem writeBack_of_not_rewrites (hattempt : attempt? p settings o = some a)
    (h : ∀ l text, ¬ Rewrites p settings o l a text) (d : Disk) :
    ∃ remarks, writeBack p o a.execution a.source d = .ok (p.store, remarks) := by
  unfold writeBack
  cases hwrite : o.write with
  | false => exact ⟨_, rfl⟩
  | true =>
    cases hnew : Command.newText? a.execution a.source with
    | none => exact ⟨_, rfl⟩
    | some text =>
      obtain ⟨hafter, hsuccess, hne⟩ := (newText?_eq_some_iff _ _).mp hnew
      obtain ⟨selection, -, -, -, hexecution⟩ := attempt?_eq_some hattempt
      obtain ⟨l, hlocate, -⟩ := attempt?_file hattempt
      have hlive : o.live = true := by
        have hnothing := Execution.exit_all_or_nothing
          (Execution.outcome_exit ⟨!o.live, override settings o⟩ a.source a.plan)
        rw [hexecution] at hafter
        have hmode := (hnothing.after_iff.mp (by rw [← Execution.run, hafter]; rfl)).2
        simpa using hmode
      exact absurd ⟨hlocate, hattempt, hwrite, hlive, hsuccess, hafter, hne⟩ (h l text)

theorem written_of_not_rewrites (hattempt : attempt? p settings o = some a)
    (h : ∀ l text, ¬ Rewrites p settings o l a text) : written p o a = p.store := by
  obtain ⟨remarks, hback⟩ := writeBack_of_not_rewrites hattempt h {}
  rw [written, hback]

theorem locate_written (hattempt : attempt? p settings o = some a) (cwd : Location)
    (path : String) :
    (written p o a).locate cwd path = p.store.locate cwd path := by
  by_cases h : ∃ l text, Rewrites p settings o l a text
  · obtain ⟨l, text, h⟩ := h
    rw [written_of_rewrites h, Store.locate_put h.file]
  · push Not at h
    rw [written_of_not_rewrites hattempt h]

theorem deliver_item? {store store' : Store} {cwd : Location} {report printed : String}
    {output : Option String} (h : deliver store cwd report output = .ok (store', printed))
    (hother : ∀ path, output = some path → store.locate cwd path ≠ .ok l) :
    store'.item? l = store.item? l := by
  cases output with
  | none =>
    simp only [deliver, Except.ok.injEq, Prod.mk.injEq] at h
    rw [h.1]
  | some path =>
    cases hwrite : store.write cwd path report with
    | error e => simp [deliver, hwrite] at h
    | ok s =>
      simp only [deliver, hwrite, Except.ok.injEq, Prod.mk.injEq] at h
      obtain ⟨m, hlocate, -, rfl⟩ := Store.write_eq_ok_iff.mp hwrite
      have hne : l ≠ m := by
        rintro rfl
        exact hother path rfl hlocate
      rw [← h.1, Store.item?_put_of_ne _ hne]

theorem apply_of_no_attempt (h : attempt? p settings o = none) {d : Disk} :
    (apply p settings o d).store = p.store ∧ ∃ f, (apply p settings o d).verdict = .error f := by
  unfold apply
  cases hresolve : settings.resolve none none with
  | error f => exact ⟨rfl, _, rfl⟩
  | ok selection =>
    cases hread : p.store.read p.cwd o.file with
    | error e => exact ⟨rfl, _, rfl⟩
    | ok source => simp [attempt?, hresolve, hread] at h

/-- How the command goes on after an attempt: it writes the new text back and delivers its
report. -/
theorem apply_of_attempt (h : attempt? p settings o = some a) {d : Disk} : ∃ said,
    apply p settings o d = match writeBack p o a.execution a.source d with
      | .error f => { verdict := .error f.cause, store := f.store, remarks := said }
      | .ok (store, remarks) =>
        match deliver store p.cwd (report settings o a) o.output d with
        | .error f =>
          { verdict := .error (.output f.cause), store := f.store, remarks := said ++ remarks }
        | .ok (store, printed) =>
          { verdict := .ok (if o.live ∧ !a.execution.success then .executionFailed
              else .ofPlan a.plan settings.failOnRefusal)
            store, printed, remarks := said ++ remarks } := by
  unfold attempt? at h
  cases hresolve : settings.resolve none none with
  | error f => simp [hresolve] at h
  | ok selection =>
    cases hread : p.store.read p.cwd o.file with
    | error e => simp [hresolve, hread] at h
    | ok source =>
      simp only [hresolve, hread, Option.some.injEq] at h
      subst h
      unfold apply
      simp only [hresolve, hread]
      exact ⟨_, rfl⟩

/-- A sound disk that takes no report leaves all files as they were. -/
theorem deliver_error {store : Store} {cwd : Location} {text : String} {output : Option String}
    {f : Broken FileError} (h : deliver store cwd text output = .error f) : f.store = store := by
  cases output with
  | none => simp [deliver] at h
  | some path =>
    unfold deliver Store.write at h
    cases htarget : store.target cwd path with
    | ok m => simp [htarget, Store.writeAt] at h
    | error e =>
      simp only [htarget, Except.error.injEq] at h
      rw [← h]

/-- The report goes to another file, so that it does not matter here whether it can be delivered. -/
theorem apply_item? (hattempt : attempt? p settings o = some a)
    (hother : ∀ path, o.output = some path → p.store.locate p.cwd path ≠ .ok l) :
    (apply p settings o).store.item? l = (written p o a).item? l := by
  obtain ⟨said, happly⟩ := apply_of_attempt hattempt
  have hplaces := locate_written hattempt
  rw [happly]
  unfold written at hplaces ⊢
  cases hback : writeBack p o a.execution a.source with
  | error f => rfl
  | ok done =>
    obtain ⟨store, remarks⟩ := done
    simp only [hback] at hplaces ⊢
    cases hdeliver : deliver store p.cwd (report settings o a) o.output with
    | error f => exact congrArg (·.item? l) (deliver_error hdeliver)
    | ok delivered =>
      obtain ⟨store', printed⟩ := delivered
      refine deliver_item? hdeliver ?_
      intro path hpath
      rw [hplaces]
      exact hother path hpath

theorem apply_unchanged (hother : ∀ path, o.output = some path → p.store.locate p.cwd path ≠ .ok l)
    (h : ∀ a text, ¬ Rewrites p settings o l a text) :
    (apply p settings o).store.item? l = p.store.item? l := by
  cases hattempt : attempt? p settings o with
  | none => rw [(apply_of_no_attempt hattempt).1]
  | some a =>
    rw [apply_item? hattempt hother]
    by_cases hsome : ∃ m text, Rewrites p settings o m a text
    · obtain ⟨m, text, hm⟩ := hsome
      have hne : l ≠ m := by
        rintro rfl
        exact h a text hm
      rw [written_of_rewrites hm, Store.item?_put_of_ne _ hne]
    · push Not at hsome
      rw [written_of_not_rewrites hattempt hsome]

theorem apply_rewritten (hother : ∀ path, o.output = some path → p.store.locate p.cwd path ≠ .ok l)
    (h : Rewrites p settings o l a text) :
    (apply p settings o).store.item? l = some (.file (.text text)) := by
  have hl : l ≠ [] := by
    rintro rfl
    have hitem := h.file
    simp [Store.item?] at hitem
  rw [apply_item? h.attempted hother, written_of_rewrites h, Store.item?_put_self _ hl]

theorem verdict_executionFailed (hattempt : attempt? p settings o = some a)
    (h : (apply p settings o).verdict = .ok .executionFailed) : a.execution.success = false := by
  obtain ⟨said, happly⟩ := apply_of_attempt hattempt
  rw [happly] at h
  split at h
  · cases h
  · split at h
    · cases h
    · simp only [Except.ok.injEq] at h
      split at h
      · next hfailed => simpa using hfailed.2
      · unfold Verdict.ofPlan at h
        split_ifs at h

end

/-- What the command writes, for every location that does not take the report. A file is rewritten
exactly if the command was asked to write it and a live run made another text of it; that text
parses, and the plan was not refused and was safe or allowed by the override. Otherwise the file
stays as it was, in particular on dry runs and where execution failed. -/
theorem apply_writes_validated (p : Place) (settings : Settings) (o : ApplyOptions) (l : Location)
    (hother : ∀ path, o.output = some path → p.store.locate p.cwd path ≠ .ok l) :
    (∀ a text, Rewrites p settings o l a text →
      (apply p settings o).store.item? l = some (.file (.text text)) ∧
      Syntax.Tree.validates text = true ∧ a.plan.state ≠ .refused ∧
      (a.plan.state = .safeToApply ∨ o.allowReview = true ∨ settings.allowReview = true)) ∧
    ((∀ a text, ¬ Rewrites p settings o l a text) →
      (apply p settings o).store.item? l = p.store.item? l) ∧
    (o.live = false → (apply p settings o).store.item? l = p.store.item? l) ∧
    ((apply p settings o).verdict = .ok .executionFailed →
      (apply p settings o).store.item? l = p.store.item? l) := by
  refine ⟨?_, apply_unchanged hother, ?_, ?_⟩
  · intro a text h
    obtain ⟨selection, -, -, -, hexecution⟩ := attempt?_eq_some h.attempted
    have hafter : (Execution.run ⟨false, override settings o⟩ a.source a.plan).after =
        some text := by
      rw [← h.made, hexecution, h.live]
      rfl
    obtain ⟨hadmitted, hcleared, -, hparse⟩ := Execution.live_after_iff.mp hafter
    refine ⟨apply_rewritten hother h, (Syntax.Tree.validates_iff text).mpr hparse, ?_, ?_⟩
    · intro hstate
      exact a.plan.state_eq_refused_iff.mp hstate hadmitted.unrefused
    · rcases hcleared with hsafe | hoverride
      · exact .inl (a.plan.state_eq_safeToApply_iff.mpr ⟨hadmitted.unrefused, hsafe⟩)
      · exact .inr (by simpa [override] using hoverride)
  · intro hdry
    apply apply_unchanged hother
    intro a text h
    simp [h.live] at hdry
  · intro hfailed
    apply apply_unchanged hother
    intro a text h
    have hsuccess := verdict_executionFailed h.attempted hfailed
    simp [h.success] at hsuccess

/-- A file with an undocumented function, whose report goes to another file. -/
theorem apply_writes_validated_documented :
    let source := "def f():\n x\n"
    let text := "def f():\n \"\"\"TODO: document f.\"\"\"\n x\n"
    let p : Place := { store := ⟨[(["f.py"], .file (.text source))]⟩, cwd := [] }
    let o : ApplyOptions := { file := "f.py", live := true, write := true, output := some "report" }
    (∀ path, o.output = some path → p.store.locate p.cwd path ≠ .ok ["f.py"]) ∧
      (∃ a, Rewrites p {} o ["f.py"] a text) ∧
      (apply p {} o).store.item? ["f.py"] = some (.file (.text text)) := by
  intro source text p o
  have hother : ∀ path, o.output = some path → p.store.locate p.cwd path ≠ .ok ["f.py"] := by
    intro path hpath
    have hreport : p.store.locate p.cwd "report" ≠ .ok ["f.py"] := by decide
    rw [← Option.some.inj hpath]
    exact hreport
  let plan := Engine.analyze {} ⟨source, some o.file⟩
  have hfacts : plan.refusal = none ∧ plan.safeToApply = true ∧ plan.failures = [] ∧
      Edit.applyAll source plan.fixes = .ok text ∧ Syntax.Tree.validates text = true := by
    decide +kernel
  obtain ⟨hrefusal, hsafe, hfailures, hedit, hvalid⟩ := hfacts
  have hafter : (Execution.run ⟨false, false⟩ source plan).after = some text :=
    Execution.live_after_iff.mpr ⟨(Engine.analyze_admitted_iff {} _).mpr ⟨hrefusal, hfailures⟩,
      .inl hsafe, hedit, (Syntax.Tree.validates_iff text).mp hvalid⟩
  have hresolve : Settings.resolve {} none none = .ok .everything := rfl
  have hread : p.store.read p.cwd o.file = .ok source := by decide
  have hattempt : attempt? p {} o =
      some ⟨source, plan, Execution.run ⟨false, false⟩ source plan⟩ := by
    simp only [attempt?, hresolve, hread]
    rfl
  have hrewrites : Rewrites p {} o ["f.py"] ⟨source, plan, Execution.run ⟨false, false⟩ source plan⟩
      text :=
    ⟨by decide, hattempt, rfl, rfl, Execution.live_success_iff.mpr ⟨text, hafter⟩, hafter, by
      decide⟩
  exact ⟨hother, ⟨_, hrewrites⟩,
    ((apply_writes_validated p {} o ["f.py"] hother).1 _ text hrewrites).1⟩

end Command

end SafeRefactor
