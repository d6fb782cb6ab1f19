import AddressPlan.Proofs.Allocation.Tasks

/-!
Runs of tasks on a store. What is observed of them is what the catalog tells, one task after the other, as long as no lock or
file fails.
-/

namespace AddressPlan

/-- A task, and the time at which it is done. -/
abbrev TimedTask :=
  Clock × Task

/-- The answer to a task, and what the store is read to hold after it. -/
abbrev Observation :=
  Except AllocationError Reply × Except StoreError Catalog

namespace Observation

/-- The answer is not that a lock or a file could not be used. -/
def Sound (o : Observation) : Prop :=
  ∀ e, o.1 = .error e → e.isIo = false

/-- Why the task has failed, if it has. -/
def failure? (o : Observation) : Option AllocationError :=
  match o.1 with
  | .ok _ => none
  | .error e => some e

theorem failure?_of_ok {o : Observation} {reply : Reply} (h : o.1 = .ok reply) : o.failure? = none := by
  rw [failure?, h]

/-- Sound answers can be told from the others. -/
instance : DecidablePred Sound := fun o =>
  match h : o.1 with
  | .ok _ => .isTrue fun _ he => nomatch h.symm.trans he
  | .error e => decidable_of_iff (e.isIo = false) ⟨fun hio _ he => Except.error.inj (h.symm.trans he) ▸ hio, fun hs => hs e h⟩

end Observation

/-! ### Runs -/

/-- What is observed of a task done at a site. -/
def Task.observe (a : Allocator) (task : Task) (s : Site) : Observation :=
  ((task.act a).outcome s, a.store.snapshot.outcome ((task.act a).after s))

namespace Allocator

/-- What is observed of tasks done one after the other. -/
def run (a : Allocator) (s : Site) : List TimedTask → List Observation
  | [] => []
  | (now, task) :: tasks =>
    let s := { s with clock := now }
    task.observe a s :: a.run ((task.act a).after s) tasks

/-- The site that tasks done one after the other leave. -/
def leave (a : Allocator) (s : Site) (tasks : List TimedTask) : Site :=
  tasks.foldl (fun s x => (x.2.act a).after { s with clock := x.1 }) s

theorem run_append (a : Allocator) : ∀ (xs ys : List TimedTask) (s : Site),
    a.run s (xs ++ ys) = a.run s xs ++ a.run (a.leave s xs) ys
  | [], _, _ => rfl
  | _ :: xs, ys, _ => congrArg (List.cons _) (run_append a xs ys _)

end Allocator

namespace Catalog

variable {validators : List Validator}

/-- What the catalog tells of tasks done one after the other. -/
def run (validators : List Validator) (c : Catalog) : List TimedTask → List Observation
  | [] => []
  | (now, task) :: tasks =>
    let told := c.perform validators now task
    (told.1, .ok told.2) :: told.2.run validators tasks

/-- The catalog that is kept after tasks done one after the other. -/
def leave (validators : List Validator) (c : Catalog) (tasks : List TimedTask) : Catalog :=
  tasks.foldl (fun c x => (c.perform validators x.1 x.2).2) c

end Catalog

/-! ### A store does what the catalog tells -/

namespace Allocator

variable {a : Allocator} {c : Catalog} {s : Site} {made opened : List Location} {keys keys' : List LockKey} {fs fs' : Files}

theorem Room.congr (h : a.Room keys fs made opened) (hworking : fs'.working = fs.working) : a.Room keys fs' made opened where
  lockDirectories := by
    have heq : a.lock.directories fs' = a.lock.directories fs := by
      cases a.lock with
      | inProcess => rfl
      | files directory => exact Files.way_congr hworking directory
    exact heq ▸ h.lockDirectories
  directories := Store.directories_congr hworking a.store ▸ h.directories
  places := Store.places_congr hworking a.store ▸ h.places
  locks key hkey := by
    have heq : a.lock.places fs' key = a.lock.places fs key := by
      cases a.lock with
      | inProcess => rfl
      | files directory => simp only [Lock.places, Files.place_congr hworking]
    exact heq ▸ h.locks key hkey

theorem Apart.congr (h : a.Apart keys fs) (hworking : fs'.working = fs.working) : a.Apart keys fs' := by
  intro key hkey
  rw [a.lock.token_congr hworking, Store.tokens_congr hworking]
  exact h key hkey

theorem Apart.mono (h : a.Apart keys fs) (hkeys : keys' ⊆ keys) : a.Apart keys' fs :=
  fun key hkey => h key (hkeys hkey)

theorem Room.mono (h : a.Room keys fs made opened) (hkeys : keys' ⊆ keys) : a.Room keys' fs made opened :=
  ⟨h.lockDirectories, h.directories, h.places, fun key hkey => h.locks key (hkeys hkey)⟩

/-- Unless a file fails, a task is observed as the catalog tells, and the catalog told is held after it. -/
theorem observe_eq (h : a.store.Holds c s made opened) (hidle : s.held = []) (task : Task)
    (hapart : a.Apart (task.keys a) s.files) (hroom : a.Room (task.keys a) s.files made opened)
    (hsound : (task.observe a s).Sound) :
    task.observe a s = ((c.perform a.validators s.clock task).1, .ok (c.perform a.validators s.clock task).2) ∧
      a.store.HoldsAfter (c.perform a.validators s.clock task).2 s ((task.act a).after s) made opened := by
  have hend : (task.act a).outcome s = (c.perform a.validators s.clock task).1 ∧
      a.store.HoldsAfter (c.perform a.validators s.clock task).2 s ((task.act a).after s) made opened := by
    rcases (task.act_realizes h hidle hapart hroom).outcome with ⟨reply, hreply, htold, hend⟩ | ⟨e, he, hio | ⟨htold, hend⟩⟩
    · exact ⟨hreply.trans htold.symm, hend⟩
    · exact absurd hio (Bool.eq_false_iff.mp (hsound e he))
    · exact ⟨he.trans htold.symm, hend⟩
  obtain ⟨houtcome, hafter⟩ := hend
  refine ⟨?_, hafter⟩
  rw [Task.observe, houtcome, Act.outcome, hafter.holds.snapshot]

/-- By induction on the tasks: the catalog that is told is held, the working directory stays the same, and no lock is held
between two tasks. -/
theorem run_eq : ∀ {tasks : List TimedTask} {c : Catalog} {s : Site}, a.store.Holds c s made opened → s.held = [] →
    a.Apart (tasks.flatMap (·.2.keys a)) s.files → a.Room (tasks.flatMap (·.2.keys a)) s.files made opened → (∀ o ∈ a.run s tasks, o.Sound) →
      a.run s tasks = c.run a.validators tasks ∧ a.store.HoldsAfter (c.leave a.validators tasks) s (a.leave s tasks) made opened
  | [], c, s, h, _, _, _, _ => ⟨rfl, h.same⟩
  | (now, task) :: tasks, c, s, h, hidle, hapart, hroom, hsound => by
    rw [List.flatMap_cons] at hroom hapart
    obtain ⟨hfirst, hrest⟩ := List.forall_mem_cons.mp hsound
    have hat : a.store.Holds c { s with clock := now } made opened := h.congr rfl rfl
    obtain ⟨hobserve, hafter⟩ := observe_eq hat hidle task (hapart.mono (List.subset_append_left _ _))
      (hroom.mono (List.subset_append_left _ _)) hfirst
    have hroom' := (hroom.mono (List.subset_append_right _ _)).congr hafter.working
    have hapart' := (hapart.mono (List.subset_append_right _ _)).congr hafter.working
    obtain ⟨hrun, hleave⟩ := run_eq hafter.holds (hafter.held.trans hidle) hapart' hroom' hrest
    exact ⟨List.cons_eq_cons.mpr ⟨hobserve, hrun⟩, hleave.since hafter.working hafter.held⟩

end Allocator

/-! ### Allocators at work -/

namespace Allocator

/-- The directories that are made for an allocator. -/
def made (a : Allocator) (fs : Files) : List Location :=
  a.lock.directories fs ++ a.store.directories fs

/-- The lock files that are opened for tasks. -/
def opened (a : Allocator) (tasks : List TimedTask) (fs : Files) : List Location :=
  a.store.places fs ++ (tasks.flatMap (·.2.keys a)).flatMap (a.lock.places fs)

theorem room (a : Allocator) (tasks : List TimedTask) (fs : Files) :
    a.Room (tasks.flatMap (·.2.keys a)) fs (a.made fs) (a.opened tasks fs) where
  lockDirectories := List.subset_append_left _ _
  directories := List.subset_append_right _ _
  places := List.subset_append_left _ _
  locks _ hkey := List.subset_append_of_subset_right _ fun _ hl => List.mem_flatMap.mpr ⟨_, hkey, hl⟩

variable {a : Allocator} {c : Catalog} {s : Site} {tasks : List TimedTask}

/-- An allocator that is ready for tasks on a catalog: the catalog is held whatever is made for them, no lock is held, and the
locks for the tasks are not the one on the catalog. -/
structure Manages (a : Allocator) (c : Catalog) (tasks : List TimedTask) (s : Site) : Prop where
  holds : a.store.Holds c s (a.made s.files) (a.opened tasks s.files)
  idle : s.held = []
  apart : a.Apart (tasks.flatMap (·.2.keys a)) s.files

theorem manages_memory (hstore : a.store = .memory) (hidle : s.held = []) : a.Manages s.memory tasks s where
  holds := by
    rw [hstore]
    exact rfl
  idle := hidle
  apart := fun _ _ => hstore ▸ List.not_mem_nil

/-- Where the allocator manages a catalog, an allocation that succeeds is a batch on this catalog. -/
theorem Manages.batch_of_ok {α : Type} {mode : Mode} {parent : Parent} {batch : Clock → Catalog → Except Refusal (Allocated α)}
    {done : Allocated α → Event} {r : Allocated α} {now : Clock} {task : Task} (h : a.Manages c [(now, task)] s)
    (hkeys : task.keys a = [.of mode parent a.lockScope]) (hdone : ∀ r held, (done r).heldAfter held = held)
    (hr : (a.transact mode parent batch done).outcome { s with clock := now } = .ok r) : batch now c = .ok r := by
  have htasks : ([(now, task)] : List TimedTask).flatMap (·.2.keys a) = [.of mode parent a.lockScope] := by
    rw [List.flatMap_cons, hkeys, List.flatMap_nil, List.append_nil]
  have hat : a.store.Holds c { s with clock := now } (a.made s.files) (a.opened [(now, task)] s.files) := h.holds.congr rfl rfl
  have hmeets : (a.transact mode parent batch done).Meets { s with clock := now } _ _ :=
    transact_meets hdone hat h.idle (htasks ▸ h.apart) (htasks ▸ a.room [(now, task)] s.files)
  rw [Act.Meets, Act.outcome_eq_ok.mp hr] at hmeets
  exact hmeets.1

theorem Manages.run_eq (h : a.Manages c tasks s) (hsound : ∀ o ∈ a.run s tasks, o.Sound) :
    a.run s tasks = c.run a.validators tasks ∧ ∀ now, a.store.kept now (a.leave s tasks) = .ok (c.leave a.validators tasks) := by
  obtain ⟨hrun, hafter⟩ := Allocator.run_eq h.holds h.idle h.apart (a.room tasks s.files) hsound
  exact ⟨hrun, hafter.holds.kept⟩

end Allocator

/-! ### Calls -/

/-- The records that have been created for an answer. -/
def Reply.created : Reply → List Created
  | prefixes r => r.created.map .prefixRecord
  | addresses r => r.created.map .addressRecord
  | changed .. | seeded | scope _ | networks .. | hosts .. | catalog _ => []

def Observation.created (o : Observation) : List Created :=
  match o.1 with
  | .ok reply => reply.created
  | .error _ => []

def Commit.created : Commit → List Created
  | prefixes _ created => created.map .prefixRecord
  | addresses _ created => created.map .addressRecord
  | seed _ => []

def Call.task : Call → Task
  | prefixes id requests => .operation (.allocatePrefixes id requests)
  | addresses parent requests => .operation (.allocateAddresses parent requests)
  | seed records => .seed records

/-- The attempt as a task of an allocator with its validators. -/
def Attempt.timed (t : Attempt) : TimedTask :=
  (t.clock, t.call.task)

namespace Catalog

variable {c c' : Catalog} {t : Attempt} {m : Commit}

/-- A call is a task that creates the same records and leaves the same catalog. -/
theorem perform_call (c : Catalog) : ∀ t : Attempt,
    match c.attempt t with
    | some (m, c') => ∃ reply, c.perform t.validators t.clock t.call.task = (.ok reply, c') ∧ reply.created = m.created
    | none => ∃ e, c.perform t.validators t.clock t.call.task = (.error e, c)
  | ⟨validators, clock, .prefixes id requests⟩ => by
    simp only [attempt, Call.task, perform, allocated]
    cases allocatePrefixes validators clock c id requests with
    | ok r => exact ⟨_, rfl, rfl⟩
    | error why => exact ⟨_, rfl⟩
  | ⟨validators, clock, .addresses parent requests⟩ => by
    simp only [attempt, Call.task, perform, allocated]
    cases allocateAddresses validators clock c parent requests with
    | ok r => exact ⟨_, rfl, rfl⟩
    | error why => exact ⟨_, rfl⟩
  | ⟨validators, clock, .seed records⟩ => by
    simp only [attempt, Call.task, perform]
    cases c.merge records with
    | ok c' => exact ⟨_, rfl, rfl⟩
    | error e => exact ⟨_, rfl⟩

/-- By induction on the calls: as tasks, they create what the steps of the run create, and leave the same catalog. -/
theorem run_calls {validators : List Validator} : ∀ {ts : List Attempt} {c : Catalog}, (∀ t ∈ ts, t.validators = validators) →
    (c.run validators (ts.map Attempt.timed)).flatMap Observation.created = (c.steps ts).flatMap (·.commit.created) ∧
      c.leave validators (ts.map Attempt.timed) = c.outcome ts
  | [], _, _ => ⟨rfl, rfl⟩
  | t :: ts, c, hts => by
    obtain ⟨ht, hts⟩ := List.forall_mem_cons.mp hts
    have hcall := perform_call c t
    rw [ht] at hcall
    cases h : c.attempt t with
    | none =>
      rw [h] at hcall
      obtain ⟨e, he⟩ := hcall
      obtain ⟨hsteps, houtcome⟩ := steps_cons_none ts h
      obtain ⟨hcreated, hleave⟩ := run_calls (c := c) hts
      rw [hsteps, houtcome, ← hcreated, ← hleave]
      simp only [List.map_cons, run, leave, List.foldl_cons, Attempt.timed, he, List.flatMap_cons, Observation.created,
        List.nil_append, and_self]
    | some r =>
      obtain ⟨m, c'⟩ := r
      rw [h] at hcall
      obtain ⟨reply, hreply, hm⟩ := hcall
      obtain ⟨hsteps, houtcome⟩ := steps_cons_some ts h
      obtain ⟨hcreated, hleave⟩ := run_calls (c := c') hts
      rw [hsteps, houtcome, List.flatMap_cons, ← hcreated, ← hleave]
      simp only [List.map_cons, run, leave, List.foldl_cons, Attempt.timed, hreply, List.flatMap_cons, Observation.created, hm,
        and_self]

end Catalog

/-- Unless a lock or a file fails, calls on an allocator create what the steps of the run create, and leave the same catalog. -/
theorem Allocator.run_calls {a : Allocator} {c : Catalog} {s : Site} {ts : List Attempt} (h : a.Manages c (ts.map Attempt.timed) s)
    (hts : ∀ t ∈ ts, t.validators = a.validators) (hsound : ∀ o ∈ a.run s (ts.map Attempt.timed), o.Sound) :
    (a.run s (ts.map Attempt.timed)).flatMap Observation.created = (c.steps ts).flatMap (·.commit.created) ∧
      ∀ now, a.store.kept now (a.leave s (ts.map Attempt.timed)) = .ok (c.outcome ts) := by
  obtain ⟨hrun, hkept⟩ := h.run_eq hsound
  obtain ⟨hcreated, hleave⟩ := Catalog.run_calls (c := c) hts
  rw [hrun, hcreated, ← hleave]
  exact ⟨rfl, hkept⟩

end AddressPlan
