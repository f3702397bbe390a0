import EventPolicy.Settings.Store

/-!
Runs of a settings store: any sequence of its operations, with changes of the
files, the environment and the working directory between them. A run keeps a
history of what each operation met and answered, and the history alone tells what
is kept and which table is the layer of the files: kept is what the last call that
asked for the kept settings answered, and the layer is the last one that was laid
in, by hand or by a reading of the files, whatever came of the settings made from it.
-/

namespace EventPolicy

/-- What the configuration files and the environment of a host make. -/
def Settings.ofHost (host : Host) : Except SettingsError Settings := do
  let fileLayer ← host.loadConfig.mapError .load
  Settings.ofLayers fileLayer host.environment []

theorem Settings.ofHost_eq (host : Host) :
    Settings.ofHost host =
      match host.loadConfig with
      | .error error => .error (.load error)
      | .ok fileLayer => Settings.ofLayers fileLayer host.environment [] := by
  rw [Settings.ofHost]
  cases host.loadConfig <;> rfl

namespace SettingsStore

/-- How many settings have been made once a call has answered. -/
def issuedAfter (issued : Nat) : Except SettingsError IssuedSettings → Nat
  | .ok _ => issued + 1
  | .error _ => issued

theorem settings_of_made (issued : Nat) (made : Except SettingsError Settings) :
    (made.map (IssuedSettings.mk issued)).map IssuedSettings.settings = made := by
  cases made <;> rfl

theorem le_issuedAfter (issued : Nat) (answer : Except SettingsError IssuedSettings) :
    issued ≤ issuedAfter issued answer := by
  cases answer with
  | ok _ => exact Nat.le_succ issued
  | error _ => exact Nat.le_refl issued

theorem number_lt_issuedAfter {made : Except SettingsError Settings} {issued : Nat}
    {new : IssuedSettings} (h : made.map (IssuedSettings.mk issued) = .ok new) :
    new.number < issuedAfter issued (made.map (IssuedSettings.mk issued)) := by
  cases made with
  | ok settings =>
    cases h
    exact Nat.lt_succ_self issued
  | error _ => cases h

/-- A making gives what the layers make the next number, and keeps nothing. -/
theorem make_eq (store : SettingsStore) (environment : Entries String) (arguments : Table) :
    let answer := (Settings.ofLayers store.fileLayer environment arguments).map
      (IssuedSettings.mk store.issued)
    store.make environment arguments =
      ({ store with issued := issuedAfter store.issued answer }, answer) := by
  cases hmade : Settings.ofLayers store.fileLayer environment arguments <;>
    simp [make, hmade, Except.map, issuedAfter]

theorem get_of_kept {store : SettingsStore} {kept : IssuedSettings} (h : store.kept = some kept)
    (host : Host) : store.get host = (store, .ok kept) := by
  simp [get, h]

/-- With nothing kept, the files are read. What they hold is laid in even if no
settings come of it. -/
theorem get_of_none {store : SettingsStore} (h : store.kept = none) (host : Host) :
    let answer := (Settings.ofHost host).map (IssuedSettings.mk store.issued)
    store.get host =
      (⟨host.loadConfig.toOption.getD store.fileLayer, answer.toOption,
        issuedAfter store.issued answer⟩, answer) := by
  obtain ⟨fileLayer, kept, issued⟩ := store
  obtain rfl : kept = none := h
  cases hload : host.loadConfig with
  | error error =>
    simp [get, Settings.ofHost_eq, hload, Except.map, Except.toOption, issuedAfter]
  | ok layer =>
    cases hmade : Settings.ofLayers layer host.environment [] <;>
      simp [get, make, setFileLayer, Settings.ofHost_eq, hload, hmade, Except.map,
        Except.toOption, issuedAfter]

/-- What is done with a store: the two calls that ask for the kept settings, a
table laid in by hand, settings made directly, and a change of the surroundings. -/
inductive Operation where
  | get
  | reload
  | setFileLayer (layer : Table)
  | make (arguments : Table)
  | change (host : Host)

/-- One operation in the history of a run: the surroundings it met, and what it
answered if it is a call. -/
structure Entry where
  operation : Operation
  host : Host
  answer : Option (Except SettingsError IssuedSettings)

/-- A store, its surroundings, and the operations so far, the last one first. -/
structure Run where
  store : SettingsStore
  host : Host
  history : List Entry

namespace Entry

/-- Whether an operation asks for the kept settings. -/
def asks (entry : Entry) : Bool :=
  match entry.operation with
  | .get | .reload => true
  | _ => false

def Returns (entry : Entry) (settings : IssuedSettings) : Prop :=
  entry.answer = some (.ok settings)

def Raises (entry : Entry) : Prop := ∃ error, entry.answer = some (.error error)

def returned? (entry : Entry) : Option IssuedSettings := entry.answer.bind Except.toOption

theorem returned?_eq_some_iff {entry : Entry} {settings : IssuedSettings} :
    entry.returned? = some settings ↔ entry.Returns settings := by
  obtain ⟨operation, host, answer⟩ := entry
  rcases answer with _ | _ | _ <;> simp [returned?, Returns, Except.toOption]

end Entry

/-- What is kept after a history: what the last call that asked for it returned. -/
def keptAfter (history : List Entry) : Option IssuedSettings :=
  (history.find? Entry.asks).bind Entry.returned?

theorem keptAfter_cons (entry : Entry) (earlier : List Entry) :
    keptAfter (entry :: earlier) = if entry.asks then entry.returned? else keptAfter earlier := by
  cases hasks : entry.asks <;> simp [keptAfter, hasks]

theorem exists_returns_of_keptAfter {history : List Entry} {kept : IssuedSettings}
    (h : keptAfter history = some kept) : ∃ entry ∈ history, entry.Returns kept := by
  obtain ⟨entry, hentry, hreturned⟩ := Option.bind_eq_some_iff.mp h
  exact ⟨entry, List.mem_of_find?_eq_some hentry, Entry.returned?_eq_some_iff.mp hreturned⟩

/-- The table that an operation lays in, with the history before it: the one given
by hand, or what the files hold if the operation reads them and can read them all. A
get reads them only when nothing is kept. -/
def Entry.laidIn? (entry : Entry) (earlier : List Entry) : Option Table :=
  match entry.operation with
  | .setFileLayer layer => some layer
  | .reload => entry.host.loadConfig.toOption
  | .get => if (keptAfter earlier).isSome then none else entry.host.loadConfig.toOption
  | _ => none

/-- The layer of the files after a history: the last one that was laid in. -/
def layerAfter : List Entry → Table
  | [] => []
  | entry :: earlier => (entry.laidIn? earlier).getD (layerAfter earlier)

namespace Entry

/-- A call answers what was to be made, as an object that was not returned before. -/
def Makes (entry : Entry) (earlier : List Entry) (made : Except SettingsError Settings) : Prop :=
  ∃ number, entry.answer = some (made.map (IssuedSettings.mk number)) ∧
    ∀ other ∈ earlier, ∀ old, other.Returns old → old.number ≠ number

theorem number_of_returns {entry : Entry} {made : Except SettingsError Settings} {number : Nat}
    {new : IssuedSettings} (hmade : entry.answer = some (made.map (IssuedSettings.mk number)))
    (hnew : entry.Returns new) : new.number = number := by
  cases made with
  | ok settings =>
    cases hmade.symm.trans hnew
    rfl
  | error error => cases hmade.symm.trans hnew

/-- What an operation answers, as the history before it tells. -/
def Answers (entry : Entry) (earlier : List Entry) : Prop :=
  match entry.operation with
  | .get =>
    match keptAfter earlier with
    | some kept => entry.Returns kept
    | none => entry.Makes earlier (Settings.ofHost entry.host)
  | .reload => entry.Makes earlier (Settings.ofHost entry.host)
  | .make arguments => entry.Makes earlier
      (Settings.ofLayers (layerAfter earlier) entry.host.environment arguments)
  | _ => entry.answer = none

end Entry

namespace Run

/-- A run that has not begun, of a store that is as the first call finds it. -/
def begin (host : Host) : Run := ⟨.empty, host, []⟩

def told (run : Run) (operation : Operation)
    (report : SettingsStore × Except SettingsError IssuedSettings) : Run :=
  ⟨report.1, run.host, ⟨operation, run.host, some report.2⟩ :: run.history⟩

def step (run : Run) : Operation → Run
  | .get => run.told .get (run.store.get run.host)
  | .reload => run.told .reload (run.store.reload run.host)
  | .make arguments =>
    run.told (.make arguments) (run.store.make run.host.environment arguments)
  | .setFileLayer layer => { run with
      store := run.store.setFileLayer layer
      history := ⟨.setFileLayer layer, run.host, none⟩ :: run.history }
  | .change host => { run with
      host
      history := ⟨.change host, run.host, none⟩ :: run.history }

def perform (run : Run) (operations : List Operation) : Run := operations.foldl step run

/-- What the history of a run says about its store and its answers. -/
structure Consistent (run : Run) : Prop where
  kept_eq : run.store.kept = keptAfter run.history
  fileLayer_eq : run.store.fileLayer = layerAfter run.history
  lt_issued : ∀ entry ∈ run.history, ∀ old, entry.Returns old → old.number < run.store.issued
  answers : ∀ entry earlier, entry :: earlier <:+ run.history → entry.Answers earlier

/-- A run stays consistent when its store follows what the new entry says. -/
theorem Consistent.cons {run : Run} (h : run.Consistent) {store : SettingsStore} {entry : Entry}
    (host : Host)
    (hkept : store.kept = if entry.asks then entry.returned? else run.store.kept)
    (hlayer : store.fileLayer = (entry.laidIn? run.history).getD run.store.fileLayer)
    (hissued : run.store.issued ≤ store.issued)
    (hreturns : ∀ new, entry.Returns new → new.number < store.issued)
    (hanswers : entry.Answers run.history) :
    Consistent ⟨store, host, entry :: run.history⟩ := by
  constructor
  case kept_eq => rw [hkept, keptAfter_cons, h.kept_eq]
  case fileLayer_eq => rw [hlayer, layerAfter, h.fileLayer_eq]
  case lt_issued =>
    intro other hother old hold
    rcases List.mem_cons.mp hother with rfl | hearlier
    · exact hreturns old hold
    · exact Nat.lt_of_lt_of_le (h.lt_issued other hearlier old hold) hissued
  case answers =>
    intro other earlier hsuffix
    rcases List.suffix_cons_iff.mp hsuffix with heq | hearlier
    · obtain ⟨rfl, rfl⟩ := List.cons.inj heq
      exact hanswers
    · exact h.answers other earlier hearlier

theorem Consistent.makes {run : Run} (h : run.Consistent) {entry : Entry}
    {made : Except SettingsError Settings}
    (hanswer : entry.answer = some (made.map (IssuedSettings.mk run.store.issued))) :
    entry.Makes run.history made :=
  ⟨run.store.issued, hanswer,
    fun other hother old hold => Nat.ne_of_lt (h.lt_issued other hother old hold)⟩

/-- A call that asks for the kept settings when it has to read the files. -/
theorem Consistent.reads {run : Run} (h : run.Consistent) {operation : Operation}
    (hcall : operation = .reload ∨ operation = .get ∧ run.store.kept = none) :
    let answer := (Settings.ofHost run.host).map (IssuedSettings.mk run.store.issued)
    Consistent
      ⟨⟨run.host.loadConfig.toOption.getD run.store.fileLayer, answer.toOption,
        issuedAfter run.store.issued answer⟩, run.host,
        ⟨operation, run.host, some answer⟩ :: run.history⟩ := by
  intro answer
  have hmakes : Entry.Makes ⟨operation, run.host, some answer⟩ run.history
      (Settings.ofHost run.host) := h.makes rfl
  have hnone : operation = .get → keptAfter run.history = none := by
    rintro rfl
    simpa [h.kept_eq] using hcall
  refine h.cons run.host ?_ ?_ (le_issuedAfter _ answer) ?_ ?_
  · rcases hcall with rfl | ⟨rfl, -⟩ <;> rfl
  · rcases hcall with rfl | ⟨rfl, -⟩
    · rfl
    · simp [Entry.laidIn?, hnone rfl]
  · intro new hnew
    exact number_lt_issuedAfter (Option.some.inj hnew)
  · rcases hcall with rfl | ⟨rfl, -⟩
    · exact hmakes
    · simpa [Entry.Answers, hnone rfl] using hmakes

/-- Every operation keeps the run consistent. -/
theorem Consistent.step {run : Run} (h : run.Consistent) (operation : Operation) :
    (run.step operation).Consistent := by
  cases operation with
  | get =>
    cases hkept : run.store.kept with
    | none =>
      rw [Run.step, told, get_of_none hkept]
      exact h.reads (.inr ⟨rfl, hkept⟩)
    | some kept =>
      have hhistory : keptAfter run.history = some kept := h.kept_eq.symm.trans hkept
      obtain ⟨entry, hentry, hreturned⟩ := exists_returns_of_keptAfter hhistory
      rw [Run.step, told, get_of_kept hkept]
      refine h.cons run.host hkept ?_ (Nat.le_refl _) ?_ ?_
      · simp [Entry.laidIn?, hhistory]
      · intro new hnew
        obtain rfl : kept = new := Except.ok.inj (Option.some.inj hnew)
        exact h.lt_issued entry hentry kept hreturned
      · simp [Entry.Answers, hhistory, Entry.Returns]
  | reload =>
    rw [Run.step, told, SettingsStore.reload, get_of_none rfl]
    exact h.reads (.inl rfl)
  | setFileLayer layer =>
    exact h.cons run.host rfl rfl (Nat.le_refl _) (by simp [Entry.Returns]) rfl
  | make arguments =>
    rw [Run.step, told, make_eq]
    refine h.cons run.host rfl rfl (le_issuedAfter _ _) ?_ ?_
    · intro new hnew
      exact number_lt_issuedAfter (Option.some.inj hnew)
    · simpa only [Entry.Answers, ← h.fileLayer_eq] using h.makes rfl
  | change host =>
    exact h.cons host rfl rfl (Nat.le_refl _) (by simp [Entry.Returns]) rfl

theorem consistent_begin (host : Host) : (begin host).Consistent := by
  constructor
  case kept_eq => rfl
  case fileLayer_eq => rfl
  case lt_issued => simp [begin]
  case answers => simp [begin]

/-- Every run is consistent after every step. -/
theorem consistent_perform {run : Run} (h : run.Consistent) (operations : List Operation) :
    (run.perform operations).Consistent := by
  induction operations generalizing run with
  | nil => exact h
  | cons operation rest ih => exact ih (h.step operation)

/-- Once settings are returned, they stay kept until a reload. -/
theorem keptAfter_of_no_reload {history : List Entry}
    (hanswers : ∀ entry earlier, entry :: earlier <:+ history → entry.Answers earlier)
    {middle : List Entry} {first : Entry} {earlier : List Entry}
    (hsuffix : middle ++ first :: earlier <:+ history) (hasks : first.asks = true)
    (hmiddle : ∀ entry ∈ middle, entry.operation ≠ .reload) {kept : IssuedSettings}
    (hkept : first.Returns kept) : keptAfter (middle ++ first :: earlier) = some kept := by
  -- By what came after the first call: of this only a get asks for what is kept, and it
  -- answers what was kept before it.
  induction middle with
  | nil =>
    rw [List.nil_append, keptAfter_cons, if_pos hasks]
    exact Entry.returned?_eq_some_iff.mpr hkept
  | cons entry middle ih =>
    obtain ⟨hentry, hrest⟩ := List.forall_mem_cons.mp hmiddle
    have hbefore := ih ((List.suffix_cons _ _).trans hsuffix) hrest
    rw [List.cons_append, keptAfter_cons]
    cases hcall : entry.asks with
    | false => simpa using hbefore
    | true =>
      have hget : entry.operation = .get := by
        unfold Entry.asks at hcall
        split at hcall
        next hget => exact hget
        next hreload => exact absurd hreload hentry
        next => cases hcall
      have hanswer := hanswers entry (middle ++ first :: earlier) hsuffix
      simp only [Entry.Answers, hget, hbefore] at hanswer
      simpa using Entry.returned?_eq_some_iff.mpr hanswer

/-- What holds after every step of every run. Kept settings and the layer of the
files are what the history says, and each answer is what the history before it says.
So once a call has returned settings, every get returns the same object until a
reload, whatever is changed meanwhile; a reload returns no object that was returned
before; once the last call has failed, nothing is kept, and the next get makes its
answer from the files and the environment that it meets; and settings made directly
have under them the layer that was laid in last, by hand or by a reading of all the
files, also one whose settings were refused. -/
theorem perform_settled (host : Host) (operations : List Operation) :
    let run := (begin host).perform operations
    run.Consistent ∧
    (∀ later middle first earlier, later :: (middle ++ first :: earlier) <:+ run.history →
      first.asks = true → later.operation = .get →
      (∀ entry ∈ middle, entry.operation ≠ .reload) →
      ∀ kept, first.Returns kept → later.Returns kept) ∧
    (∀ entry earlier, entry :: earlier <:+ run.history → entry.operation = .reload →
      ∀ new, entry.Returns new →
        ∀ other ∈ earlier, ∀ old, other.Returns old → old.number ≠ new.number) ∧
    (∀ entry, run.history.find? Entry.asks = some entry → entry.Raises →
      run.store.kept = none ∧
        ∀ next, (run.store.get next).2.map IssuedSettings.settings = Settings.ofHost next) ∧
    ∀ environment arguments,
      (run.store.make environment arguments).2.map IssuedSettings.settings =
        Settings.ofLayers (layerAfter run.history) environment arguments := by
  intro run
  have hrun : run.Consistent := consistent_perform (consistent_begin host) operations
  refine ⟨hrun, ?_, ?_, ?_, ?_⟩
  · intro later middle first earlier hsuffix hasks hget hmiddle kept hkept
    have hbefore := keptAfter_of_no_reload hrun.answers ((List.suffix_cons _ _).trans hsuffix) hasks
      hmiddle hkept
    have hanswer := hrun.answers later _ hsuffix
    simpa only [Entry.Answers, hget, hbefore] using hanswer
  · intro entry earlier hsuffix hreload new hnew other hother old hold
    have hanswer := hrun.answers entry earlier hsuffix
    simp only [Entry.Answers, hreload] at hanswer
    obtain ⟨number, hmade, hfresh⟩ := hanswer
    rw [Entry.number_of_returns hmade hnew]
    exact hfresh other hother old hold
  · rintro entry hlast ⟨error, hraised⟩
    have hkept : run.store.kept = none := by
      rw [hrun.kept_eq, keptAfter, hlast]
      simp [Entry.returned?, hraised, Except.toOption]
    refine ⟨hkept, fun next => ?_⟩
    rw [get_of_none hkept]
    exact settings_of_made run.store.issued (Settings.ofHost next)
  · intro environment arguments
    rw [make_eq, hrun.fileLayer_eq]
    exact settings_of_made run.store.issued _

end Run

end SettingsStore

end EventPolicy
