import AddressPlan.Store.Basic

/-!
Actions at a site, told by what they do to it: one equation for each way in which an action is built, and one rule for
what holds of the site that an action leaves.
-/

namespace AddressPlan

/-! ### Events -/

namespace Site

theorem held_note (s : Site) (e : Event) : (s.note e).held = e.heldAfter s.held := by
  simp only [held, note, List.foldl_append, List.foldl_cons, List.foldl_nil]

@[simp] theorem held_note_took (s : Site) (t : Token) : (s.note (.took t)).held = t :: s.held :=
  s.held_note _

@[simp] theorem held_note_gaveBack (s : Site) (t : Token) : (s.note (.gaveBack t)).held = s.held.filter (· != t) :=
  s.held_note _

/-- A lock that was free before it was taken is free again when it has been given back. -/
theorem filter_cons_free {held : List Token} {t : Token} (h : t ∉ held) : (t :: held).filter (· != t) = held := by
  rw [List.filter_cons_of_neg (by simp), List.filter_eq_self]
  intro t' ht'
  simpa using fun heq : t' = t => h (heq ▸ ht')

end Site

/-! ### Actions -/

namespace Act

variable {ε ε' α β : Type} {s s' : Site} {act : Act ε α} {a : α} {e : ε}

theorem bind_ok {f : α → Act ε β} (h : act s = .ok a s') : (act >>= f) s = f a s' := by
  show EStateM.bind act f s = _
  rw [EStateM.bind, h]

theorem bind_error {f : α → Act ε β} (h : act s = .error e s') : (act >>= f) s = .error e s' := by
  show EStateM.bind act f s = _
  rw [EStateM.bind, h]

theorem mapError_ok {f : ε → ε'} (h : act s = .ok a s') : act.mapError f s = .ok a s' := by
  rw [mapError, h]

theorem mapError_error {f : ε → ε'} (h : act s = .error e s') : act.mapError f s = .error (f e) s' := by
  rw [mapError, h]

section End
variable {waits : ε → Bool} {last : Site → Site}

theorem andFinally_ok (h : act s = .ok a s') : act.andFinally waits last s = .ok a (last s') := by
  rw [andFinally, h]

theorem andFinally_error (h : act s = .error e s') :
    act.andFinally waits last s = .error e (if waits e then s' else last s') := by
  rw [andFinally, h]

theorem ifFails_ok (h : act s = .ok a s') : act.ifFails last s = .ok a s' := by
  rw [ifFails, h]

theorem ifFails_error (h : act s = .error e s') : act.ifFails last s = .error e (last s') := by
  rw [ifFails, h]

end End

theorem note_apply (e : Event) (s : Site) : (note e : Act ε Unit) s = .ok () (s.note e) := rfl

theorem get_bind {f : Site → Act ε α} : (MonadState.get >>= f) s = f s s := rfl

theorem take_free {t : Token} (h : t ∉ s.held) : take t e s = .ok () (s.note (.took t)) := by
  rw [take, get_bind, if_neg h]
  rfl

theorem take_held {t : Token} (h : t ∈ s.held) : take t e s = .error e s := by
  rw [take, get_bind, if_pos h]
  rfl

theorem makeDirectories_ok {path : String} {fs : Files} (h : s.files.makeDirectories path = .ok fs) :
    makeDirectories path s = .ok () { s with files := fs } := by
  rw [makeDirectories, get_bind, h]
  rfl

theorem changeFiles_ok {f : Files → Except FileFault Files} {fs : Files} (h : f s.files = .ok fs) :
    changeFiles f s = .ok () { s with files := fs } := by
  rw [changeFiles, get_bind, h]
  rfl

/-- What an action gives, whatever becomes of the site. -/
def outcome (act : Act ε α) (s : Site) : Except ε α :=
  match act s with
  | .ok a _ => .ok a
  | .error e _ => .error e

/-- The site that an action leaves. -/
def after (act : Act ε α) (s : Site) : Site :=
  match act s with
  | .ok _ t | .error _ t => t

section Outcome
variable {t : Site}

theorem outcome_eq_ok : act.outcome s = .ok a ↔ act s = .ok a (act.after s) := by
  unfold outcome after
  cases h : act s <;> simp

theorem outcome_eq_error : act.outcome s = .error e ↔ act s = .error e (act.after s) := by
  unfold outcome after
  cases h : act s <;> simp

theorem outcome_of_ok (h : act s = .ok a t) : act.outcome s = .ok a := by
  rw [outcome, h]

theorem outcome_of_error (h : act s = .error e t) : act.outcome s = .error e := by
  rw [outcome, h]

theorem after_of_ok (h : act s = .ok a t) : act.after s = t := by
  rw [after, h]

theorem after_of_error (h : act s = .error e t) : act.after s = t := by
  rw [after, h]

end Outcome

/-! ### What holds at the end -/

/-- What holds of the site that an action leaves: `ok` with a result, `error` without one. -/
def Ends (act : Act ε α) (s : Site) (ok : α → Site → Prop) (error : Site → Prop) : Prop :=
  match act s with
  | .ok a s' => ok a s'
  | .error _ s' => error s'

variable {ok ok' : α → Site → Prop} {error error' : Site → Prop}

theorem Ends.mono (h : act.Ends s ok error) (hok : ∀ a s', ok a s' → ok' a s') (herror : ∀ s', error s' → error' s') :
    act.Ends s ok' error' := by
  unfold Ends at h ⊢
  split at h
  · exact hok _ _ h
  · exact herror _ h

/-- What holds of the site in any case. -/
theorem Ends.after {P : Site → Prop} (h : act.Ends s (fun _ => P) P) : P (act.after s) := by
  unfold Ends at h
  unfold Act.after
  split at h <;> exact h

theorem Ends.pure (h : ok a s) : Ends (pure a : Act ε α) s ok error := h

theorem Ends.bind {f : α → Act ε β} {okf : β → Site → Prop} (h : act.Ends s ok error) (hf : ∀ a s', ok a s' → (f a).Ends s' okf error) :
    (act >>= f).Ends s okf error := by
  unfold Ends at h ⊢
  split at h
  · rename_i ha
    rw [bind_ok ha]
    exact hf _ _ h
  · rename_i he
    rw [bind_error he]
    exact h

theorem Ends.mapError {f : ε → ε'} (h : act.Ends s ok error) : (act.mapError f).Ends s ok error := by
  unfold Ends at h ⊢
  split at h
  · rename_i ha
    rw [mapError_ok ha]
    exact h
  · rename_i he
    rw [mapError_error he]
    exact h

theorem Ends.get {f : Site → Act ε α} (h : (f s).Ends s ok error) : Ends (MonadStateOf.get >>= f) s ok error := h

theorem note_ends {e : Event} {okf : Unit → Site → Prop} (h : okf () (s.note e)) :
    Ends (note e : Act ε Unit) s okf error := h

theorem Ends.note_bind {e : Event} {f : Unit → Act ε β} {okf : β → Site → Prop} (h : (f ()).Ends (s.note e) okf error) :
    (Act.note e >>= f).Ends s okf error := h

theorem Ends.throw {e : ε} (h : error s) : Ends (throw e : Act ε α) s ok error := h

theorem Ends.ofExcept {x : Except ε α} (hok : ∀ a, x = .ok a → ok a s) (herror : ∀ e, x = .error e → error s) :
    Ends (Act.ofExcept x) s ok error := by
  cases x with
  | ok a => exact hok a rfl
  | error e => exact herror e rfl

/-- What is done at the end does not matter if it leaves alone what holds there. -/
theorem Ends.andFinally {waits : ε → Bool} {last : Site → Site} (h : act.Ends s ok error) (hok : ∀ a t, ok a t → ok a (last t))
    (herror : ∀ t, error t → error (last t)) : (act.andFinally waits last).Ends s ok error := by
  unfold Ends at h ⊢
  split at h
  · rename_i ha
    rw [andFinally_ok ha]
    exact hok _ _ h
  · rename_i e t he
    rw [andFinally_error he]
    dsimp only
    split
    · exact h
    · exact herror _ h

theorem Ends.ifFails {last : Site → Site} (h : act.Ends s ok fun t => error (last t)) : (act.ifFails last).Ends s ok error := by
  unfold Ends at h ⊢
  split at h
  · rename_i ha
    rw [ifFails_ok ha]
    exact h
  · rename_i he
    rw [ifFails_error he]
    exact h

theorem take_ends {t : Token} {okf : Unit → Site → Prop} (hok : okf () (s.note (.took t))) (herror : error s) :
    (take t e).Ends s okf error := by
  by_cases h : t ∈ s.held
  · rw [Ends, take_held h]
    exact herror
  · rw [Ends, take_free h]
    exact hok

theorem changeFiles_ends {f : Files → Except FileFault Files} {okf : Unit → Site → Prop} (herror : error s)
    (hok : ∀ fs, f s.files = .ok fs → okf () { s with files := fs }) : Ends (changeFiles f) s okf error := by
  refine .get ?_
  cases h : f s.files with
  | ok fs => exact hok fs h
  | error e => exact herror

/-! ### What holds at the end, and why -/

section Meets
variable {ok ok' : α → Site → Prop} {error error' : ε → Site → Prop}

/-- What holds of the end of an action: `ok` of its result and the site, or `error` of the reason why it fails. -/
def Meets (act : Act ε α) (s : Site) (ok : α → Site → Prop) (error : ε → Site → Prop) : Prop :=
  match act s with
  | .ok a t => ok a t
  | .error e t => error e t

theorem Meets.outcome (h : act.Meets s ok error) : (∃ a, act.outcome s = .ok a ∧ ok a (act.after s)) ∨
    ∃ e, act.outcome s = .error e ∧ error e (act.after s) := by
  unfold Meets at h
  unfold Act.outcome Act.after
  split at h
  · exact Or.inl ⟨_, rfl, h⟩
  · exact Or.inr ⟨_, rfl, h⟩

theorem Ends.meets {error : Site → Prop} (h : act.Ends s ok error) : act.Meets s ok fun _ => error := h

theorem Meets.mono (h : act.Meets s ok error) (hok : ∀ a t, ok a t → ok' a t) (herror : ∀ e t, error e t → error' e t) :
    act.Meets s ok' error' := by
  unfold Meets at h ⊢
  split at h
  · exact hok _ _ h
  · exact herror _ _ h

theorem Meets.and (h : act.Meets s ok error) (h' : act.Meets s ok' error') :
    act.Meets s (fun a t => ok a t ∧ ok' a t) fun e t => error e t ∧ error' e t := by
  unfold Meets at h h' ⊢
  cases hact : act s <;> rw [hact] at h h' <;> exact ⟨h, h'⟩

/-- What holds of the end if something is the case. -/
theorem Meets.of_imp {P : Prop} (h : P → act.Meets s ok error) : act.Meets s (fun a t => P → ok a t) fun e t => P → error e t := by
  unfold Meets at h ⊢
  cases hact : act s <;> rw [hact] at h <;> exact h

theorem Meets.mono_error (h : act.Meets s ok error) (herror : ∀ e t, error e t → error' e t) : act.Meets s ok error' :=
  h.mono (fun _ _ hok => hok) herror

theorem Meets.pure {a : α} (h : ok a s) : Meets (pure a : Act ε α) s ok error := h

theorem Meets.bind {f : α → Act ε β} {okf : β → Site → Prop} (h : act.Meets s ok error)
    (hf : ∀ a t, ok a t → (f a).Meets t okf error) : (act >>= f).Meets s okf error := by
  unfold Meets at h ⊢
  split at h
  · rename_i ha
    rw [bind_ok ha]
    exact hf _ _ h
  · rename_i he
    rw [bind_error he]
    exact h

theorem Meets.mapError {f : ε → ε'} {error : ε' → Site → Prop} (h : act.Meets s ok fun e => error (f e)) :
    (act.mapError f).Meets s ok error := by
  unfold Meets at h ⊢
  split at h
  · rename_i ha
    rw [mapError_ok ha]
    exact h
  · rename_i he
    rw [mapError_error he]
    exact h

theorem Meets.get {f : Site → Act ε α} (h : (f s).Meets s ok error) : Meets (MonadStateOf.get >>= f) s ok error := h

theorem Meets.throw {e : ε} (h : error e s) : Meets (throw e : Act ε α) s ok error := h

theorem Meets.note {e : Event} {okf : Unit → Site → Prop} (h : okf () (s.note e)) :
    Meets (note e : Act ε Unit) s okf error := h

theorem Meets.modify_bind {g : Site → Site} {f : PUnit → Act ε β} {okf : β → Site → Prop} (h : (f ⟨⟩).Meets (g s) okf error) :
    (modify g >>= f : Act ε β).Meets s okf error := h

theorem Meets.abandon {st : Store} (h : error e (st.release s)) : (st.abandon e : Act ε α).Meets s ok error := h

theorem Meets.note_bind {e : Event} {f : Unit → Act ε β} {okf : β → Site → Prop}
    (h : (f ()).Meets (s.note e) okf error) : (Act.note e >>= f).Meets s okf error := h

theorem Meets.andFinally {waits : ε → Bool} {last : Site → Site} (h : act.Meets s (fun a t => ok a (last t))
    fun e t => error e (if waits e then t else last t)) : (act.andFinally waits last).Meets s ok error := by
  unfold Meets at h ⊢
  split at h
  · rename_i ha
    rw [andFinally_ok ha]
    exact h
  · rename_i he
    rw [andFinally_error he]
    exact h

theorem Meets.ifFails {last : Site → Site} (h : act.Meets s ok fun e t => error e (last t)) : (act.ifFails last).Meets s ok error := by
  unfold Meets at h ⊢
  split at h
  · rename_i ha
    rw [ifFails_ok ha]
    exact h
  · rename_i he
    rw [ifFails_error he]
    exact h

theorem Meets.take {t : Token} {okf : Unit → Site → Prop} (hfree : t ∉ s.held → okf () (s.note (.took t)))
    (hheld : t ∈ s.held → error e s) : (Act.take t e).Meets s okf error := by
  by_cases h : t ∈ s.held
  · rw [Meets, take_held h]
    exact hheld h
  · rw [Meets, take_free h]
    exact hfree h

end Meets

/-! ### What takes no locks -/

/-- The same locks are held after the action as before it, whatever its outcome. -/
def LeavesLocks (act : Act ε α) : Prop :=
  ∀ s, (act.after s).held = s.held

theorem LeavesLocks.meets {ok : α → Site → Prop} {error : ε → Site → Prop} (h : act.LeavesLocks) (hmeets : act.Meets s ok error) :
    act.Meets s (fun a t => ok a t ∧ t.held = s.held) fun e t => error e t ∧ t.held = s.held := by
  have hheld := h s
  unfold Meets at hmeets ⊢
  unfold after at hheld
  cases hact : act s <;> rw [hact] at hmeets hheld <;> exact ⟨hmeets, hheld⟩

theorem LeavesLocks.bind {f : α → Act ε β} (h : act.LeavesLocks) (hf : ∀ a, (f a).LeavesLocks) : (act >>= f).LeavesLocks := by
  intro s
  have hact := h s
  cases hs : act s with
  | ok a t =>
    rw [after_of_ok hs] at hact
    rw [after, bind_ok hs]
    exact (hf a t).trans hact
  | error e t =>
    rw [after_of_error hs] at hact
    rw [after_of_error (bind_error hs)]
    exact hact

theorem LeavesLocks.mapError {f : ε → ε'} (h : act.LeavesLocks) : (act.mapError f).LeavesLocks := by
  intro s
  have hact := h s
  cases hs : act s with
  | ok a t =>
    rw [after_of_ok hs] at hact
    rw [after_of_ok (mapError_ok hs)]
    exact hact
  | error e t =>
    rw [after_of_error hs] at hact
    rw [after_of_error (mapError_error hs)]
    exact hact

theorem LeavesLocks.pure {a : α} : LeavesLocks (pure a : Act ε α) := fun _ => rfl

theorem LeavesLocks.note {e : Event} (h : ∀ held, e.heldAfter held = held) : LeavesLocks (note e : Act ε Unit) := fun s =>
  (s.held_note e).trans (h _)

theorem LeavesLocks.changeFiles (f : Files → Except FileFault Files) : (changeFiles f).LeavesLocks := by
  intro s
  cases h : f s.files with
  | ok fs => rw [after_of_ok (changeFiles_ok h)]; rfl
  | error e =>
    rw [after, Act.changeFiles, get_bind, h]
    rfl

theorem LeavesLocks.makeDirectories (path : String) : (makeDirectories path).LeavesLocks := by
  intro s
  cases h : s.files.makeDirectories path with
  | ok fs => rw [after_of_ok (makeDirectories_ok h)]; rfl
  | error i =>
    rw [after, Act.makeDirectories, get_bind, h]
    rfl

/-! ### Why an action fails -/

/-- The error of an action, if it fails. -/
def error? (act : Act ε α) (s : Site) : Option ε :=
  match act s with
  | .ok _ _ => none
  | .error e _ => some e

/-- What holds of the error, if an action fails. -/
def Fails (act : Act ε α) (s : Site) (P : ε → Prop) : Prop :=
  ∀ e, act.error? s = some e → P e

variable {P : ε → Prop}

theorem error?_error (h : act s = .error e s') : act.error? s = some e := by
  rw [error?, h]

theorem Fails.meets (h : act.Fails s P) : act.Meets s (fun _ _ => True) fun e _ => P e := by
  unfold Meets
  split
  · trivial
  · rename_i e t hact
    exact h e (error?_error hact)

theorem Fails.bind_ok {f : α → Act ε β} (h : act s = .ok a s') (hf : (f a).Fails s' P) : (act >>= f).Fails s P := by
  intro e he
  rw [error?, Act.bind_ok h] at he
  exact hf e he

theorem Fails.bind {f : α → Act ε β} (h : act.Fails s P) (hf : ∀ a t, (f a).Fails t P) : (act >>= f).Fails s P := by
  cases hact : act s with
  | ok a t => exact .bind_ok hact (hf a t)
  | error e t =>
    intro e' he'
    rw [error?, bind_error hact] at he'
    cases he'
    exact h e (error?_error hact)

theorem Fails.mapError {f : ε → ε'} {P : ε' → Prop} (h : act.Fails s fun e => P (f e)) : (act.mapError f).Fails s P := by
  intro e' he'
  cases hact : act s with
  | ok a t =>
    rw [error?, mapError_ok hact] at he'
    cases he'
  | error e t =>
    rw [error?, mapError_error hact] at he'
    cases he'
    exact h e (error?_error hact)

theorem Fails.andFinally {waits : ε → Bool} {last : Site → Site} (h : act.Fails s P) : (act.andFinally waits last).Fails s P := by
  intro e' he'
  cases hact : act s with
  | ok a t =>
    rw [error?, andFinally_ok hact] at he'
    cases he'
  | error e t =>
    rw [error?, andFinally_error hact] at he'
    cases he'
    exact h _ (error?_error hact)

theorem Fails.ifFails {last : Site → Site} (h : act.Fails s P) : (act.ifFails last).Fails s P := by
  intro e' he'
  cases hact : act s with
  | ok a t =>
    rw [error?, ifFails_ok hact] at he'
    cases he'
  | error e t =>
    rw [error?, ifFails_error hact] at he'
    cases he'
    exact h _ (error?_error hact)

theorem Fails.take {t : Token} (h : t ∈ s.held → P e) : (Act.take t e).Fails s P := by
  intro e' he'
  by_cases hheld : t ∈ s.held
  · rw [error?, take_held hheld] at he'
    cases he'
    exact h hheld
  · rw [error?, take_free hheld] at he'
    cases he'

theorem Fails.pure : Fails (pure a : Act ε α) s P := nofun

theorem Fails.note {e : Event} : Fails (note e : Act ε Unit) s P := nofun

theorem Fails.modify {f : Site → Site} : Fails (modify f : Act ε PUnit) s P := nofun

theorem Fails.get {f : Site → Act ε α} (h : (f s).Fails s P) : Fails (MonadStateOf.get >>= f) s P := h

theorem Fails.ofExcept {x : Except ε α} (h : ∀ e, x = .error e → P e) : (Act.ofExcept x).Fails s P := by
  cases x with
  | ok a => exact nofun
  | error e =>
    rintro _ ⟨⟩
    exact h e rfl

theorem Fails.throw {e : ε} (h : P e) : Fails (throw e : Act ε α) s P := fun _ he => by
  cases he
  exact h

end Act

end AddressPlan
