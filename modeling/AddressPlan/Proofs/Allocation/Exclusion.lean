import AddressPlan.Proofs.Allocation.Atomic
import AddressPlan.Proofs.Allocation.LockNames
import AddressPlan.Proofs.Files.Directories

/-!
Allocations that share a lock. While some of them hold it for their keys, others ask for theirs, and those whose lock is taken
have to wait. A lock in the process goes by the keys that are held, and one in a directory, which may be shared by several
processes, by the files that are locked. As no two keys have the same file, both let the same allocations in: whoever waits,
waits for a holder of the same key.
-/

namespace AddressPlan

open Files (KeepsDirectories)

namespace Lock

variable {l : Lock} {directory directory' : String} {key key' : LockKey} {keys : List LockKey} {fs fs' : Files} {s t u : Site}

/-! ### What is locked -/

theorem place_lockFile (fs : Files) (directory : String) (key : LockKey) :
    fs.place (Path.join directory key.fileName) = fs.place directory ++ [key.fileName] :=
  Files.place_join fs directory key.slash_not_mem_fileName key.length_fileName

/-- Locks that are kept in files have the same file exactly if the directory and the key are the same. -/
theorem token_files_inj : (files directory).token fs key = (files directory').token fs' key' ↔
    fs.place directory = fs'.place directory' ∧ key = key' := by
  rw [token, token, Token.file.injEq, place_lockFile, place_lockFile, ← LockKey.fileName_inj]
  constructor
  · intro h
    exact ⟨List.append_inj_left' h rfl, List.singleton_inj.mp (List.append_inj_right' h rfl)⟩
  · rintro ⟨hplace, hname⟩
    rw [hplace, hname]

theorem token_injective (l : Lock) (fs : Files) : Function.Injective fun key => l.token fs key := by
  intro key key' h
  cases l with
  | inProcess => exact Token.key.inj h
  | files directory => exact (token_files_inj.mp h).2

/-! ### What a lock needs -/

/-- What a lock needs is there: its directory, and the file for the key in it. -/
def Ready (fs : Files) (key : LockKey) : Lock → Prop
  | inProcess => True
  | files directory => fs.Entered directory ∧ fs.HasFile (Path.join directory key.fileName)

/-- What is there already is not made again. -/
theorem prepare_of_ready (h : l.Ready s.files key) : l.prepare key s = .ok () s := by
  cases l with
  | inProcess => rfl
  | files directory =>
    obtain ⟨hdirectory, hfile⟩ := h
    rw [prepare, Act.bind_ok (Act.mapError_ok (Act.makeDirectories_ok hdirectory.makeDirectories_eq))]
    exact Act.mapError_ok (Act.changeFiles_ok hfile.write_eq)

theorem ready_of_prepare (l : Lock) (key : LockKey) (s : Site) :
    (l.prepare key).Ends s (fun _ t => l.Ready t.files key) fun _ => True := by
  cases l with
  | inProcess => trivial
  | files directory =>
    -- That the directory is there follows once the file in it has been located, which tells that the path can be followed.
    have hmake : (Act.makeDirectories directory).Ends s
        (fun _ t => (directory ≠ "" → Files.Followed directory) → t.files.Entered directory) fun _ => True := by
      refine .get ?_
      cases h : s.files.makeDirectories directory with
      | ok fs => exact fun hpath => Files.makeDirectories_entered hpath h
      | error i => trivial
    refine hmake.mapError.bind fun _ t ht => .mapError (Act.changeFiles_ends trivial fun fs hfs => ?_)
    have hgrows := Files.open_grows hfs
    have hfile := Files.hasFile_of_write hfs
    have hentered : t.files.Entered directory := by
      obtain ⟨_, _, hl, -⟩ := hfile
      exact ht (Files.followed_of_ok hl).of_join
    exact ⟨hentered.of_directories (fun _ hat => hgrows.entries hat) hgrows.working, hfile⟩

/-! ### What others do -/

/-- What others do at the site: they neither take nor give back locks for keys, and leave directories and locked files where
they are. -/
structure Spares (l : Lock) (s t : Site) : Prop where
  working : t.files.working = s.files.working
  directories : KeepsDirectories s.files t.files
  locked : ∀ {key x e}, l.token s.files key = .file x → .file x ∈ s.held → s.files.at? x = some e → t.files.at? x = some e
  held : ∀ key, l.token s.files key ∈ t.held ↔ l.token s.files key ∈ s.held

namespace Spares

theorem refl (l : Lock) (s : Site) : l.Spares s s :=
  ⟨rfl, fun _ h => h, fun _ _ h => h, fun _ => Iff.rfl⟩

theorem token_eq (h : l.Spares s t) (key : LockKey) : l.token t.files key = l.token s.files key :=
  l.token_congr h.working key

theorem trans (h : l.Spares s t) (h' : l.Spares t u) : l.Spares s u where
  working := h'.working.trans h.working
  directories := fun x hx => h'.directories x (h.directories x hx)
  locked := by
    intro key x e hx hheld hat
    refine h'.locked ((h.token_eq key).trans hx) ?_ (h.locked hx hheld hat)
    rw [← hx] at hheld ⊢
    exact (h.held key).mpr hheld
  held := fun key => by rw [← h.held, ← h.token_eq, h'.held]

theorem of_grows {made opened : List Location} (h : s.Grows t made opened) (hheld : t.held = s.held) : l.Spares s t :=
  ⟨h.files.working, fun _ hat => h.files.entries hat, fun _ _ hat => h.files.entries hat, fun _ => by rw [hheld]⟩

end Spares

theorem Ready.of_spares (h : l.Ready s.files key) (hheld : l.token s.files key ∈ s.held) (hspares : l.Spares s t) :
    l.Ready t.files key := by
  cases l with
  | inProcess => trivial
  | files directory =>
    obtain ⟨hdirectory, place, content, hplace, hat⟩ := h
    have htoken : (files directory).token s.files key = .file place := by rw [token, Files.locate_eq_place hplace]
    exact ⟨hdirectory.of_directories hspares.directories hspares.working, place, content,
      Files.locate_of_directories hplace hspares.directories hspares.working, hspares.locked htoken (htoken ▸ hheld) hat⟩

/-- What a lock needs is made without any harm to others. -/
theorem prepare_meets (l : Lock) (key : LockKey) (s : Site) : (l.prepare key).Meets s
    (fun _ t => l.Spares s t ∧ l.Ready t.files key ∧ t.held = s.held) fun e t => l.Spares s t ∧ ∀ k, e ≠ .taken k := by
  have hgrows := (l.prepare_leavesLocks key).meets (l.prepare_ends key s (List.Subset.refl _) (List.Subset.refl _)).meets
  refine ((hgrows.and (l.prepare_isIo key s)).and (l.ready_of_prepare key s).meets).mono ?_ ?_
  · rintro _ t ⟨⟨⟨ht, hheld⟩, -⟩, hready⟩
    exact ⟨.of_grows ht hheld, hready, hheld⟩
  · rintro e t ⟨⟨⟨ht, hheld⟩, hio⟩, -⟩
    refine ⟨.of_grows ht hheld, ?_⟩
    rintro k rfl
    cases hio

/-! ### What is held for whom -/

/-- The lock is held for these keys, and could be taken for them again if it were given back. -/
structure HeldFor (l : Lock) (keys : List LockKey) (s : Site) : Prop where
  held : ∀ key, l.token s.files key ∈ s.held ↔ key ∈ keys
  ready : ∀ key ∈ keys, l.Ready s.files key

/-- The lock is held for nobody. -/
def Idle (l : Lock) (s : Site) : Prop :=
  ∀ key, l.token s.files key ∉ s.held

theorem Idle.heldFor (h : l.Idle s) : l.HeldFor [] s :=
  ⟨fun key => iff_of_false (h key) List.not_mem_nil, fun _ hkey => absurd hkey List.not_mem_nil⟩

namespace HeldFor

theorem spares (h : l.HeldFor keys s) (hspares : l.Spares s t) : l.HeldFor keys t where
  held key := by rw [hspares.token_eq, hspares.held, h.held]
  ready key hkey := (h.ready key hkey).of_spares ((h.held key).mpr hkey) hspares

/-- An allocation waits exactly if the lock is held for its key. If it does not, and nothing fails, the lock is held for it. -/
theorem acquire (h : l.HeldFor keys s) (key : LockKey) :
    (∀ k, (l.acquire key).outcome s = .error (.taken k) ↔ k = key ∧ key ∈ keys) ∧
      l.HeldFor (if (l.acquire key).outcome s = .ok () then key :: keys else keys) ((l.acquire key).after s) := by
  by_cases hkey : key ∈ keys
  · have hwaits : l.acquire key s = .error (.taken key) s := by
      rw [Lock.acquire, Act.bind_ok (prepare_of_ready (h.ready key hkey)), Act.get_bind, Act.take_held ((h.held key).mpr hkey)]
    rw [Act.outcome_of_error hwaits, Act.after_of_error hwaits]
    refine ⟨fun k => ⟨fun heq => ?_, fun ⟨hk, _⟩ => by rw [hk]⟩, h⟩
    cases heq
    exact ⟨rfl, hkey⟩
  · have hprepare := l.prepare_meets key s
    unfold Act.Meets at hprepare
    split at hprepare
    · rename_i t hprepared
      obtain ⟨hspares, hready, hheld⟩ := hprepare
      have hnow := h.spares hspares
      have htakes : l.acquire key s = .ok () (t.note (.took (l.token t.files key))) := by
        rw [Lock.acquire, Act.bind_ok hprepared, Act.get_bind, Act.take_free (mt (hnow.held key).mp hkey)]
      rw [Act.outcome_of_ok htakes, Act.after_of_ok htakes]
      refine ⟨fun k => iff_of_false nofun fun hk => hkey hk.2, fun k => ?_, List.forall_mem_cons.mpr ⟨hready, hnow.ready⟩⟩
      show l.token t.files k ∈ (t.note (.took (l.token t.files key))).held ↔ k ∈ key :: keys
      rw [Site.held_note_took, List.mem_cons, List.mem_cons, hnow.held, (l.token_injective t.files).eq_iff]
    · rename_i e t hfails
      obtain ⟨hspares, he⟩ := hprepare
      have hacquire : l.acquire key s = .error e t := Act.bind_error hfails
      rw [Act.outcome_of_error hacquire, Act.after_of_error hacquire]
      exact ⟨fun k => iff_of_false (fun heq => he k (Except.error.inj heq)) fun hk => hkey hk.2, h.spares hspares⟩

theorem release (h : l.HeldFor keys s) (key : LockKey) : l.HeldFor (keys.filter (· != key)) (l.release key s) where
  held k := by
    show l.token s.files k ∈ (((s.note (.released key)).note (.gaveBack (l.token s.files key))).held) ↔ _
    rw [Site.held_note_gaveBack, Site.held_note]
    show l.token s.files k ∈ s.held.filter (· != l.token s.files key) ↔ _
    rw [List.mem_filter, List.mem_filter, h.held, bne_iff_ne, bne_iff_ne, (l.token_injective s.files).ne_iff]
  ready k hk := h.ready k (List.mem_of_mem_filter hk)

end HeldFor

/-! ### Runs -/

/-- What happens at a lock: an allocation asks for it and is answered, or gives it back. -/
inductive Turn where
  | asked (key : LockKey) (answer : Except LockError Unit)
  | gaveBack (key : LockKey)
  deriving DecidableEq

/-- Allocations ask for the lock in any order, and those that hold it give it back. In between, anything may be done that
spares the lock. -/
inductive Run (l : Lock) : Site → List Turn → Site → Prop
  | done (s : Site) : Run l s [] s
  | ask {s u : Site} {key : LockKey} {answer : Except LockError Unit} {log : List Turn}
      (hanswer : (l.acquire key).outcome s = answer) (hrest : Run l ((l.acquire key).after s) log u) :
      Run l s (.asked key answer :: log) u
  | giveBack {s u : Site} {key : LockKey} {log : List Turn} (hheld : l.token s.files key ∈ s.held)
      (hrest : Run l (l.release key s) log u) : Run l s (.gaveBack key :: log) u
  | work {s t u : Site} {log : List Turn} (hspares : l.Spares s t) (hrest : Run l t log u) : Run l s log u

/-- Allocations are told apart by their keys alone: one has to wait exactly if its key is among those that are held. -/
def Exclusive : List LockKey → List Turn → Prop
  | _, [] => True
  | keys, .asked key answer :: log =>
    (∀ k, answer = .error (.taken k) ↔ k = key ∧ key ∈ keys) ∧ Exclusive (if answer = .ok () then key :: keys else keys) log
  | keys, .gaveBack key :: log => key ∈ keys ∧ Exclusive (keys.filter (· != key)) log

variable {log : List Turn}

/-- By induction on the run: at each turn, the lock is held for the keys that have been granted and not given back. -/
theorem Run.exclusive (hrun : l.Run s log u) : ∀ {keys}, l.HeldFor keys s → Exclusive keys log ∧ ∃ keys', l.HeldFor keys' u := by
  induction hrun with
  | done => exact fun h => ⟨trivial, _, h⟩
  | ask hanswer _ ih =>
    intro keys h
    subst hanswer
    obtain ⟨hwaits, hnext⟩ := h.acquire _
    obtain ⟨hlog, hend⟩ := ih hnext
    exact ⟨⟨hwaits, hlog⟩, hend⟩
  | giveBack hheld _ ih =>
    intro keys h
    obtain ⟨hlog, hend⟩ := ih (h.release _)
    exact ⟨⟨(h.held _).mp hheld, hlog⟩, hend⟩
  | work hspares _ ih => exact fun h => ih (h.spares hspares)

/-! ### The lock in the process -/

/-- Everything but a request that has failed. -/
def Turn.served : Turn → Bool
  | asked _ (.error (.file ..)) => false
  | _ => true

/-- An allocation whose lock cannot be opened makes no difference to the others. -/
theorem Exclusive.served : ∀ {log : List Turn} {keys : List LockKey}, Exclusive keys log → Exclusive keys (log.filter Turn.served)
  | [], _, _ => trivial
  | .asked _ (.ok _) :: _, _, ⟨hwaits, h⟩ => ⟨hwaits, h.served⟩
  | .asked _ (.error (.taken _)) :: _, _, ⟨hwaits, h⟩ => ⟨hwaits, h.served⟩
  | .asked _ (.error (.file ..)) :: log, keys, ⟨_, h⟩ => (show Exclusive keys log from h).served
  | .gaveBack _ :: _, _, ⟨hheld, h⟩ => ⟨hheld, h.served⟩

/-- Whatever goes by the keys alone can be seen at a lock in the process. -/
theorem run_inProcess : ∀ {log : List Turn} {keys : List LockKey} {s : Site}, Exclusive keys log →
    (∀ turn ∈ log, turn.served = true) → inProcess.HeldFor keys s → ∃ v, inProcess.Run s log v
  | [], _, s, _, _, _ => ⟨s, .done s⟩
  | .asked key answer :: log, keys, s, ⟨hwaits, hnext⟩, hserved, h => by
    obtain ⟨hturn, hlog⟩ := List.forall_mem_cons.mp hserved
    obtain ⟨htaken, hafter⟩ := h.acquire key
    have hanswer : (inProcess.acquire key).outcome s = answer := by
      by_cases hkey : key ∈ keys
      · rw [(htaken key).mpr ⟨rfl, hkey⟩, (hwaits key).mpr ⟨rfl, hkey⟩]
      · rw [Act.outcome_of_ok (acquire_inProcess (mt (h.held key).mp hkey))]
        match answer, hturn, hwaits with
        | .ok (), _, _ => rfl
        | .error (.taken k), _, hwaits => exact absurd ((hwaits k).mp rfl).2 hkey
    rw [hanswer] at hafter
    obtain ⟨v, hrun⟩ := run_inProcess hnext hlog hafter
    exact ⟨v, .ask hanswer hrun⟩
  | .gaveBack key :: log, keys, s, ⟨hkey, hnext⟩, hserved, h => by
    obtain ⟨-, hlog⟩ := List.forall_mem_cons.mp hserved
    obtain ⟨v, hrun⟩ := run_inProcess hnext hlog (h.release key)
    exact ⟨v, .giveBack ((h.held key).mpr hkey) hrun⟩

end Lock

end AddressPlan
