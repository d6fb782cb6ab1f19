import AddressPlan.Proofs.Allocation.Clocks
import AddressPlan.Proofs.Allocation.Listing
import AddressPlan.Proofs.Allocation.Runs

/-!
Runs of tasks on a store in memory and on one in a file. Both do what the catalog tells, so they cannot be told apart by
their answers and by what they are read to hold, as long as no lock or file fails. For the file this rests on what its
path leads to, as long as nothing has been found there: the directories and lock files that the run makes could be it.
-/

namespace AddressPlan

namespace Observation

def timeless (o : Observation) : Observation :=
  (o.1.map Reply.timeless, o.2.map Catalog.timeless)

theorem failure?_timeless (o : Observation) : o.timeless.failure? = o.failure? := by
  obtain ⟨answer, _⟩ := o
  cases answer <;> rfl

end Observation

namespace Catalog

variable {validators : List Validator}

/-- By induction on the tasks: the catalogs that they leave are the same, up to the times in them. -/
theorem run_timeless (hv : ∀ v ∈ validators, v.Timeless) : ∀ {xs ys : List TimedTask} {c d : Catalog}, c.Alike d →
    xs.map (·.2.timeless) = ys.map (·.2.timeless) →
      (c.run validators xs).map Observation.timeless = (d.run validators ys).map Observation.timeless
  | [], [], _, _, _, _ => rfl
  | [], _ :: _, _, _, _, h => by cases h
  | _ :: _, [], _, _, _, h => by cases h
  | (now, x) :: xs, (now', y) :: ys, c, d, hcd, h => by
    obtain ⟨hxy, hrest⟩ : x.timeless = y.timeless ∧ _ := List.cons_eq_cons.mp h
    have htold : erase (c.perform validators now x) = erase (d.perform validators now' y) := by
      rw [← perform_timeless hv, ← perform_timeless hv, hcd, hxy]
    obtain ⟨hanswer, hcatalog⟩ := Prod.ext_iff.mp htold
    refine List.cons_eq_cons.mpr ⟨Prod.ext hanswer ?_, run_timeless hv hcatalog hrest⟩
    exact congrArg Except.ok hcatalog

end Catalog

/-! ### What a transaction does to the file -/

namespace Store

variable {c : Catalog} {s : Site} {made opened : List Location} {path : String}

/-- A transaction leaves the text of the file alone, unless it is committed: then the text is that of the working copy,
which is what is read next. -/
def Publishes (path : String) (changes : List Change) (committed : Bool) (s : Site) : Prop :=
  ((file path).transaction changes committed).Meets s
    (fun reply t => ∃ told working, reply = .changed told working ∧
      if committed then t.files.read path = .ok working.text ∧ ∀ now, load now t.files path = .ok working
      else t.files.read path = s.files.read path)
    fun _ t => t.files.read path = s.files.read path

theorem publishes (h : (file path).Holds c s made opened) (hidle : s.held = []) (hmade : (file path).directories s.files ⊆ made)
    (hopened : (file path).places s.files ⊆ opened) (changes : List Change) (committed : Bool) :
    Publishes path changes committed s := by
  have hread : ∀ t, s.Grows t made opened → t.files.read path = s.files.read path := fun t ht => h.2 _ ht.files
  have hbegin := (begin_meets h (fun _ _ => hidle ▸ List.not_mem_nil) hmade hopened).mono (fun _ t hc => hread t hc.2.grows)
    fun _ t he => hread t he.2
  refine .bind (.mapError hbegin) fun c' t ht => ?_
  cases c'.changes? changes with
  | none => exact .abandon ht
  | some r =>
    obtain ⟨told, working⟩ := r
    cases committed with
    | false => exact .modify_bind ⟨told, working, rfl, ht⟩
    | true =>
      have hcommit := (commit_file_meets path working t).mono (fun _ _ hu => hu.1) fun _ _ hu => hu.2.trans ht
      exact .bind (.mapError hcommit) fun _ u hu => ⟨told, working, rfl, hu, load_of_text hu⟩

end Store

/-! ### The file refines the memory -/

namespace Allocator

variable {a b : Allocator} {c : Catalog} {s t : Site} {path : String} {tasks : List TimedTask}

/-- What is read from a file is held, unless there is nothing and its path leads to what the tasks make. -/
theorem manages_file (hfile : a.store = .file path) (hs : ∀ now, Store.load now s.files path = .ok c) (hidle : s.held = [])
    (hapart : a.Apart (tasks.flatMap (·.2.keys a)) s.files)
    (hsteady : s.files.read path = .error .notFound → s.files.Steady path (a.made s.files) (a.opened tasks s.files)) :
    a.Manages c tasks s where
  holds := by
    rw [hfile]
    refine ⟨hs, ?_⟩
    by_cases hread : s.files.read path = .error .notFound
    · exact hsteady hread
    · exact Files.steady_of_read hread
  idle := hidle
  apart := hapart

/-- A catalog in a file and one in memory, from the same start: as long as no file fails, any tasks have the same answers and
leave the same catalogs, and with clocks that differ, the same up to times. The file changes with committed transactions only.
If there is nothing at the path, it must not lead to what the tasks make; and its lock must not be one that they take for
themselves, or one that is held already. -/
theorem file_refines_memory (hfile : a.store = .file path) (hmemory : b.store = .memory)
    (hvalidators : b.validators = a.validators) (hs : ∀ now, Store.load now s.files path = .ok c) (ht : t.memory = c)
    (hidle : s.held = []) (hidle' : t.held = []) (hapart : a.Apart (tasks.flatMap (·.2.keys a)) s.files)
    (hsteady : s.files.read path = .error .notFound → s.files.Steady path (a.made s.files) (a.opened tasks s.files))
    (hsound : ∀ o ∈ a.run s tasks, o.Sound) :
    ((∀ o ∈ b.run t tasks, o.Sound) → a.run s tasks = b.run t tasks) ∧
    (∀ tasks', tasks.map (·.2.timeless) = tasks'.map (·.2.timeless) → (∀ v ∈ a.validators, v.Timeless) →
      (∀ o ∈ b.run t tasks', o.Sound) →
        (a.run s tasks).map Observation.timeless = (b.run t tasks').map Observation.timeless) ∧
    ∀ before now changes committed after, tasks = before ++ (now, .transaction changes committed) :: after →
      Store.Publishes path changes committed { a.leave s before with clock := now } := by
  have hmanages := manages_file hfile hs hidle hapart hsteady
  have hrun := (hmanages.run_eq hsound).1
  have hmemory : ∀ {tasks}, (∀ o ∈ b.run t tasks, o.Sound) → b.run t tasks = c.run a.validators tasks := fun hsound' => by
    rw [← hvalidators, ← ht]
    exact ((manages_memory hmemory hidle').run_eq hsound').1
  refine ⟨fun hsound' => ?_, fun tasks' htasks hv hsound' => ?_, fun before now changes committed after heq => ?_⟩
  · rw [hrun, hmemory hsound']
  · rw [hrun, hmemory hsound']
    exact Catalog.run_timeless hv (.refl c) htasks
  · have hroom := a.room tasks s.files
    rw [heq, List.flatMap_append] at hroom hapart
    have hbefore : ∀ o ∈ a.run s before, o.Sound := fun o ho => hsound o (by
      rw [heq, run_append]
      exact List.mem_append_left _ ho)
    obtain ⟨-, hd⟩ := run_eq (heq ▸ hmanages.holds) hidle (hapart.mono (List.subset_append_left _ _))
      (hroom.mono (List.subset_append_left _ _)) hbefore
    have hroom' := hroom.congr hd.working
    have hdirectories := hroom'.directories
    have hplaces := hroom'.places
    have hat : a.store.Holds _ { a.leave s before with clock := now } _ _ := hd.holds.congr rfl rfl
    rw [hfile] at hat hdirectories hplaces
    exact Store.publishes hat (hd.held.trans hidle) hdirectories hplaces changes committed

/-! ### A catalog in a file that is not there yet -/

/-- Tasks at a given time: a batch that is refused, a transaction that is dropped, and one that is committed. -/
def errands (now : Time.Timestamp) : List TimedTask :=
  [(now, .operation (.allocatePrefixes 1 [])), (now, .transaction [.remove 1] false),
    (now, .transaction [.merge Catalog.nested, .insertPrefix Catalog.somePrefix now] true)]

/-- An allocator for a catalog in a file, with locks in another directory. -/
def inOneFile : Allocator :=
  .of (.file "data/ipam.json") (.files "locks") .global true .all []

theorem file_refines_memory_bare :
    let tasks := errands Catalog.epoch
    (∀ now, Store.load now bare.files "data/ipam.json" = .ok .empty) ∧
    bare.files.Steady "data/ipam.json" (inOneFile.made bare.files) (inOneFile.opened tasks bare.files) ∧
    (∀ o ∈ inOneFile.run bare tasks, o.Sound) ∧
    inOneFile.run bare tasks = inMemory.run bare tasks ∧
    (inOneFile.run bare tasks).map Observation.timeless = (inMemory.run bare (errands Catalog.nextDay)).map Observation.timeless ∧
    Store.Publishes "data/ipam.json" [.remove 1] false { inOneFile.leave bare (tasks.take 1) with clock := Catalog.epoch } := by
  intro tasks
  have hload : ∀ now, Store.load now bare.files "data/ipam.json" = .ok .empty := fun _ => rfl
  have hsettled : inFiles.store.Settled bare (inOneFile.made bare.files) (inOneFile.opened tasks bare.files) :=
    settled_bare (by decide +kernel) (by decide +kernel)
  have hapart : inOneFile.Apart (tasks.flatMap (·.2.keys inOneFile)) bare.files := by decide +kernel
  have hsound : ∀ o ∈ inOneFile.run bare tasks, o.Sound := by decide +kernel
  obtain ⟨hsame, htimeless, htexts⟩ :=
    file_refines_memory (a := inOneFile) (b := inMemory) (t := bare) rfl rfl rfl hload rfl rfl rfl hapart
      (fun _ => hsettled.steady) hsound
  have htimeless := htimeless (errands Catalog.nextDay) rfl (of_timeless fun _ hv => absurd hv List.not_mem_nil)
  refine ⟨hload, hsettled.steady, hsound, hsame (by decide +kernel), htimeless (by decide +kernel), ?_⟩
  exact htexts (tasks.take 1) Catalog.epoch [.remove 1] false (tasks.drop 2) rfl

/-! ### Where a file is no memory -/

/-- Tasks at two sites are observed to do the same, up to times, if no file fails. -/
def Agree (a b : Allocator) (s t : Site) (tasks tasks' : List TimedTask) : Prop :=
  (∀ o ∈ a.run s tasks, o.Sound) → (∀ o ∈ b.run t tasks', o.Sound) →
    (a.run s tasks).map Observation.timeless = (b.run t tasks').map Observation.timeless

/-- Why tasks have failed, one after the other. -/
def failures (observed : List Observation) : List (Option AllocationError) :=
  observed.map Observation.failure?

theorem failures_timeless (observed : List Observation) : failures (observed.map Observation.timeless) = failures observed := by
  rw [failures, List.map_map]
  exact List.map_congr_left fun o _ => o.failure?_timeless

theorem sound_of_failures {observed : List Observation} (h : ∀ e? ∈ failures observed, e?.all (!·.isIo) = true) :
    ∀ o ∈ observed, o.Sound := by
  intro o ho e he
  have hall := h _ (List.mem_map_of_mem ho)
  rw [Observation.failure?, he] at hall
  simpa using hall

theorem not_agree {es es' : List (Option AllocationError)} (hs : failures (a.run s tasks) = es) (ht : failures (b.run t tasks') = es')
    (hsound : ∀ e? ∈ es ++ es', e?.all (!·.isIo) = true) (hne : es ≠ es') : ¬ Agree a b s t tasks tasks' := by
  subst hs ht
  intro h
  have heq := h (sound_of_failures fun e? he => hsound e? (List.mem_append_left _ he))
    (sound_of_failures fun e? he => hsound e? (List.mem_append_right _ he))
  exact hne (by rw [← failures_timeless, heq, failures_timeless])

/-- An allocator whose path to the catalog is that of one of its lock files. -/
def onItsLock : Allocator :=
  .of (.file "locks/ipam-100100.lock") (.files "locks") .global true .all []

/-- An allocator that locks its catalog with the file that it has locked for its batch. -/
def besideItsLock : Allocator :=
  .of (.file "locks/ipam-100100") (.files "locks") .global true .all []

/-- A site with that catalog. -/
def besideLock (text : String) : Site :=
  ⟨⟨[(["locks"], .directory), (["locks", "ipam-100100"], .text text)], []⟩, .empty, Catalog.epoch, []⟩

/-- The allocation waits for itself. -/
theorem failures_besideItsLock (text : String) : failures (besideItsLock.run (besideLock text) ((errands Catalog.epoch).take 1)) =
    [some (.store (.io "locks/ipam-100100.lock" .locked))] := rfl

/-- A validator that goes by the time. -/
def punctual : Validator :=
  fun r _ => r.punctual

def quarter (now : Time.Timestamp) : List TimedTask :=
  [(now, .operation (.allocatePrefixes 1 (prefixesOf [26])))]

theorem failures_nearby {r : Allocated PrefixRecord}
    (h : AddressPlan.allocatePrefixes [punctual] Catalog.epoch c 1 (prefixesOf [26]) = .ok r) :
    failures ((nearby [punctual]).run (stocked c.text) (quarter Catalog.epoch)) = [none] := by
  have hdone : ((nearby [punctual]).allocatePrefixes 1 (prefixesOf [26])).outcome (stocked c.text) = .ok r := transact_nearby _ h
  have hact : ((Task.operation (.allocatePrefixes 1 (prefixesOf [26]))).act (nearby [punctual])).outcome (stocked c.text) =
      .ok (.prefixes r) := Act.outcome_of_ok (Act.bind_ok (Act.outcome_eq_ok.mp hdone))
  exact congrArg ([·]) (Observation.failure?_of_ok hact)

/-- A file is no memory where it is one of the lock files, or is locked with one of them: then its text is none of a catalog, or
an allocation waits for itself. Nor is it one for a validator that goes by the time, if the times are not the same. -/
theorem not_refines_memory :
    (∀ now, Store.load now bare.files "locks/ipam-100100.lock" = .ok .empty) ∧
    ¬ Agree onItsLock inMemory bare bare ((errands Catalog.epoch).take 1) ((errands Catalog.epoch).take 1) ∧
    (∀ now, Store.load now (besideLock Catalog.nested.text).files "locks/ipam-100100" = .ok .nested) ∧
    ¬ Agree besideItsLock inMemory (besideLock Catalog.nested.text) (site .nested) ((errands Catalog.epoch).take 1)
      ((errands Catalog.epoch).take 1) ∧
    (∀ now, Store.load now (stocked Catalog.nested.text).files "ipam.json" = .ok .nested) ∧
    ¬ Agree (nearby [punctual]) ⟨.memory, .inProcess, .global, [punctual]⟩ (stocked Catalog.nested.text) (site .nested)
      (quarter Catalog.epoch) (quarter Catalog.nextDay) := by
  have hquarter : ((AddressPlan.allocatePrefixes [punctual] Catalog.epoch .nested 1 (prefixesOf [26])).toOption.map fun _ => ()) =
      some () := by decide +kernel
  obtain ⟨r, hr, -⟩ := toOption_map_eq_some hquarter
  have hbeside : (besideLock Catalog.nested.text).files.read "locks/ipam-100100" = .ok Catalog.nested.text := rfl
  refine ⟨fun _ => rfl, not_agree rfl rfl (by decide +kernel) (by decide +kernel), Store.load_of_text hbeside,
    not_agree (failures_besideItsLock _) rfl (by decide +kernel) (by decide +kernel), @kept_nearby [] .nested,
    not_agree (failures_nearby hr) rfl (by decide +kernel) (by decide +kernel)⟩

end Allocator

end AddressPlan
