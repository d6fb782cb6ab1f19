import AddressPlan.Decoder.Record
import AddressPlan.Proofs.Except
import Mathlib.Data.List.Nodup

/-!
Records whose fields are all optional. Their fields do not interfere: each part of the record that is decoded from an object
is what the member of its name decodes to, or its default, and the object decodes exactly if each of its members does on
its own.
-/

namespace AddressPlan

open Json (Mismatch)

variable {σ : Type}

/-! ### Members -/

namespace Json

variable {name n : String} {v : Json}

/-- No two members have the same name. -/
def Distinct (members : List (String × Json)) : Prop :=
  (members.map (·.1)).Nodup

theorem mem_names_insert : ∀ {members : List (String × Json)}, n ∈ (insert name v members).map (·.1) →
    n = name ∨ n ∈ members.map (·.1)
  | [], h => Or.inl (List.mem_singleton.mp h)
  | (first, _) :: rest, h => by
    unfold insert at h
    split at h
    · exact Or.inr h
    · split at h
      · exact List.mem_cons.mp h
      · rcases List.mem_cons.mp h with rfl | h
        · exact Or.inr List.mem_cons_self
        · exact (mem_names_insert h).imp_right (List.mem_cons_of_mem _)

theorem names_insert_pairwise : ∀ {members : List (String × Json)}, (members.map (·.1)).Pairwise (· < ·) →
    ((insert name v members).map (·.1)).Pairwise (· < ·)
  | [], _ => List.pairwise_singleton _ _
  | (first, _) :: rest, h => by
    obtain ⟨hfirst, hrest⟩ := List.pairwise_cons.mp h
    unfold insert
    split
    · exact h
    · rename_i hne
      split
      · rename_i hlt
        refine List.pairwise_cons.mpr ⟨List.forall_mem_cons.mpr ⟨hlt, fun x hx => ?_⟩, h⟩
        exact Std.lt_trans hlt (hfirst x hx)
      · rename_i hnlt
        refine List.pairwise_cons.mpr ⟨fun x hx => ?_, names_insert_pairwise hrest⟩
        rcases mem_names_insert hx with rfl | hx
        · exact Std.lt_of_le_of_ne (Std.not_lt.mp hnlt) (Ne.symm hne)
        · exact hfirst x hx

theorem names_inserted_pairwise : ∀ (members start : List (String × Json)), (start.map (·.1)).Pairwise (· < ·) →
    ((members.foldl (fun ms m => insert m.1 m.2 ms) start).map (·.1)).Pairwise (· < ·)
  | [], _, h => h
  | _ :: members, _, h => names_inserted_pairwise members _ (names_insert_pairwise h)

/-- The members of an object that is read from text have different names, whatever the text repeats. -/
theorem distinct_ordered (members : List (String × Json)) : Distinct (ordered members) := by
  have hascending : ((ordered members).map (·.1)).Pairwise (· < ·) := names_inserted_pairwise members [] .nil
  have hne : ∀ {x y : String}, x < y → x ≠ y := fun hlt heq => String.lt_irrefl _ (heq ▸ hlt)
  exact hascending.imp hne

end Json

/-! ### Parts -/

/-- An optional field together with the part of the record that it sets. -/
structure Part (σ : Type) where
  {α : Type}
  name : String
  decoder : Decoder α
  default : α
  get : σ → α
  set : α → σ → σ

namespace Part

def field (p : Part σ) : Field σ :=
  .optional p.name p.decoder p.set

/-- What the members of an object say about a part, where `absent` is what it is without a member of its name. -/
def readOr (p : Part σ) (absent : p.α) (members : List (String × Json)) : Except Mismatch p.α :=
  match members.find? (·.1 == p.name) with
  | some m => p.decoder.ofJson m.2
  | none => .ok absent

def read (p : Part σ) (members : List (String × Json)) : Except Mismatch p.α :=
  p.readOr p.default members

/-- The parts make up a record, which is blank if all of them have their defaults. -/
structure Lawful (blank : σ) (parts : List (Part σ)) : Prop where
  names : (parts.map (·.name)).Nodup
  blank : ∀ p ∈ parts, p.get blank = p.default
  get_set : ∀ p ∈ parts, ∀ a s, p.get (p.set a s) = a
  get_set_of_ne : ∀ p ∈ parts, ∀ q ∈ parts, p.name ≠ q.name → ∀ a s, p.get (q.set a s) = p.get s
  ext : ∀ s t, (∀ p ∈ parts, p.get s = p.get t) → s = t

theorem Lawful.eq_of_name {blank : σ} {parts : List (Part σ)} (h : Lawful blank parts) {p q : Part σ} (hp : p ∈ parts)
    (hq : q ∈ parts) (hname : p.name = q.name) : p = q :=
  List.inj_on_of_nodup_map h.names hp hq hname

section Read
variable {p : Part σ} {absent : p.α} {name : String} {v : Json} {members : List (String × Json)}

theorem readOr_cons_of_eq (h : name = p.name) : p.readOr absent ((name, v) :: members) = p.decoder.ofJson v := by
  have hfound : ((name, v) :: members).find? (·.1 == p.name) = some (name, v) := List.find?_cons_of_pos (beq_iff_eq.mpr h)
  rw [readOr, hfound]

theorem readOr_cons_of_ne (h : name ≠ p.name) : p.readOr absent ((name, v) :: members) = p.readOr absent members := by
  have hpassed : ((name, v) :: members).find? (·.1 == p.name) = members.find? (·.1 == p.name) :=
    List.find?_cons_of_neg (mt beq_iff_eq.mp h)
  rw [readOr, hpassed, readOr]

theorem readOr_of_not_mem (h : p.name ∉ members.map (·.1)) : p.readOr absent members = .ok absent := by
  have hnone : members.find? (·.1 == p.name) = none := by
    refine List.find?_eq_none.mpr fun m hm heq => h ?_
    exact List.mem_map.mpr ⟨m, hm, beq_iff_eq.mp heq⟩
  rw [readOr, hnone]

end Read

end Part

namespace Decoder

variable {blank s r : σ} {parts : List (Part σ)} {p : Part σ} {name shape : String} {v : Json} {e : Mismatch}
  {members : List (String × Json)}

/-! ### One member -/

theorem field?_of_part (hl : Part.Lawful blank parts) (hp : p ∈ parts) : field? (parts.map Part.field) p.name = some p.field := by
  have hmem : p.field ∈ parts.map Part.field := List.mem_map_of_mem hp
  cases hf : field? (parts.map Part.field) p.name with
  | none => exact absurd (beq_self_eq_true _) (List.find?_eq_none.mp hf _ hmem)
  | some f =>
    obtain ⟨q, hq, rfl⟩ := List.mem_map.mp (List.mem_of_find?_eq_some hf)
    have hname : (q.field.name == p.name) = true := List.find?_some (p := fun f : Field σ => f.name == p.name) hf
    rw [hl.eq_of_name hq hp (beq_iff_eq.mp hname)]

/-- A name is that of a part, or of no field at all. -/
theorem part_or_unknown (parts : List (Part σ)) (name : String) :
    (∃ p ∈ parts, p.name = name) ∨ (∀ p ∈ parts, p.name ≠ name) ∧ field? (parts.map Part.field) name = none := by
  by_cases h : ∃ p ∈ parts, p.name = name
  · exact Or.inl h
  · have hne : ∀ p ∈ parts, p.name ≠ name := fun p hp heq => h ⟨p, hp, heq⟩
    refine Or.inr ⟨hne, List.find?_eq_none.mpr fun f hf => ?_⟩
    obtain ⟨p, hp, rfl⟩ := List.mem_map.mp hf
    exact mt beq_iff_eq.mp (hne p hp)

theorem ofMembers_of_unknown {fields : List (Field σ)} (h : field? fields name = none) :
    ofMembers fields ((name, v) :: members) s = ofMembers fields members s := by
  rw [ofMembers, h]

theorem ofMembers_of_part (hl : Part.Lawful blank parts) (hp : p ∈ parts) :
    ofMembers (parts.map Part.field) ((p.name, v) :: members) s =
      p.decoder.ofJson v >>= fun a => ofMembers (parts.map Part.field) members (p.set a s) := by
  rw [ofMembers, field?_of_part hl hp]
  show (p.decoder.ofJson v).map p.set >>= _ = _
  cases p.decoder.ofJson v <;> rfl

theorem missing?_parts (parts : List (Part σ)) (names : List String) : missing? (parts.map Part.field) names = none := by
  rw [missing?, Option.map_eq_none_iff, List.find?_eq_none]
  intro f hf
  obtain ⟨p, -, rfl⟩ := List.mem_map.mp hf
  exact Bool.false_ne_true

theorem record_object (shape : String) (blank : σ) (parts : List (Part σ)) (members : List (String × Json)) :
    (record shape blank (parts.map Part.field)).ofJson (.object members) = ofMembers (parts.map Part.field) members blank := by
  simp only [record, missing?_parts]
  cases ofMembers (parts.map Part.field) members blank <;> rfl

/-- A member that is decoded alone fails exactly as the decoder of its field does. -/
theorem alone_eq_error (hl : Part.Lawful blank parts) :
    (record shape blank (parts.map Part.field)).ofJson (.object [(name, v)]) = .error e ↔
      ∃ p ∈ parts, p.name = name ∧ p.decoder.ofJson v = .error e := by
  rw [record_object]
  rcases part_or_unknown parts name with ⟨p, hp, rfl⟩ | ⟨hne, hunknown⟩
  · rw [ofMembers_of_part hl hp, bind_eq_error]
    constructor
    · rintro (h | ⟨a, -, h⟩)
      · exact ⟨p, hp, rfl, h⟩
      · cases h
    · rintro ⟨q, hq, hname, h⟩
      obtain rfl : q = p := hl.eq_of_name hq hp hname
      exact Or.inl h
  · rw [ofMembers_of_unknown hunknown]
    exact iff_of_false nofun fun ⟨p, hp, hname, _⟩ => hne p hp hname

/-! ### All members -/

/-- From any record on, members decode exactly if each of them does alone. -/
theorem exists_ofMembers_iff (hl : Part.Lawful blank parts) : ∀ {members : List (String × Json)} {s : σ},
    (∃ r, ofMembers (parts.map Part.field) members s = .ok r) ↔
      ∀ m ∈ members, ∀ p ∈ parts, p.name = m.1 → ∃ a, p.decoder.ofJson m.2 = .ok a
  | [], s => iff_of_true ⟨s, rfl⟩ fun _ hm => absurd hm List.not_mem_nil
  | (name, v) :: members, s => by
    rw [List.forall_mem_cons]
    rcases part_or_unknown parts name with ⟨p, hp, rfl⟩ | ⟨hne, hunknown⟩
    · have hone : (∀ q ∈ parts, q.name = p.name → ∃ a, q.decoder.ofJson v = .ok a) ↔ ∃ a, p.decoder.ofJson v = .ok a := by
        refine ⟨fun h => h p hp rfl, fun h q hq hname => ?_⟩
        obtain rfl : q = p := hl.eq_of_name hq hp hname
        exact h
      rw [hone]
      simp only [ofMembers_of_part hl hp, bind_eq_ok]
      constructor
      · rintro ⟨r, a, ha, hr⟩
        exact ⟨⟨a, ha⟩, (exists_ofMembers_iff hl).mp ⟨r, hr⟩⟩
      · rintro ⟨⟨a, ha⟩, hmembers⟩
        obtain ⟨r, hr⟩ := (exists_ofMembers_iff hl (s := p.set a s)).mpr hmembers
        exact ⟨r, a, ha, hr⟩
    · simp only [ofMembers_of_unknown hunknown]
      rw [exists_ofMembers_iff hl]
      exact (and_iff_right fun p hp hname => absurd hname (hne p hp)).symm

/-- Setting a part is all that the member of its name does, if there is no other one. -/
theorem readOr_set (hl : Part.Lawful blank parts) {q : Part σ} (hp : p ∈ parts) (hq : q ∈ parts) {a : p.α}
    (ha : p.decoder.ofJson v = .ok a) (hmembers : p.name ∉ members.map (·.1)) :
    q.readOr (q.get (p.set a s)) members = q.readOr (q.get s) ((p.name, v) :: members) := by
  by_cases hname : p.name = q.name
  · obtain rfl : p = q := hl.eq_of_name hp hq hname
    rw [Part.readOr_cons_of_eq rfl, Part.readOr_of_not_mem hmembers, hl.get_set p hp, ha]
  · rw [Part.readOr_cons_of_ne hname, hl.get_set_of_ne q hq p hp (Ne.symm hname)]

/-- From any record on, the parts of the result are what the members say about them, or as they were. -/
theorem ofMembers_eq_ok_iff (hl : Part.Lawful blank parts) : ∀ {members : List (String × Json)} {s r : σ},
    Json.Distinct members → (ofMembers (parts.map Part.field) members s = .ok r ↔
      ∀ p ∈ parts, p.readOr (p.get s) members = .ok (p.get r))
  | [], s, r, _ => by
    constructor
    · intro h p _
      cases h
      rfl
    · intro h
      exact congrArg Except.ok (hl.ext s r fun p hp => Except.ok.inj (h p hp))
  | (name, v) :: members, s, r, hdistinct => by
    obtain ⟨hname, hrest⟩ := List.nodup_cons.mp hdistinct
    rcases part_or_unknown parts name with ⟨p, hp, rfl⟩ | ⟨hne, hunknown⟩
    · rw [ofMembers_of_part hl hp, bind_eq_ok]
      constructor
      · rintro ⟨a, ha, hr⟩ q hq
        rw [← readOr_set hl hp hq ha hname]
        exact (ofMembers_eq_ok_iff hl hrest).mp hr q hq
      · intro h
        have ha : p.decoder.ofJson v = .ok (p.get r) := by
          have := h p hp
          rwa [Part.readOr_cons_of_eq rfl] at this
        refine ⟨p.get r, ha, (ofMembers_eq_ok_iff hl hrest).mpr fun q hq => ?_⟩
        rw [readOr_set hl hp hq ha hname]
        exact h q hq
    · rw [ofMembers_of_unknown hunknown, ofMembers_eq_ok_iff hl hrest]
      refine forall₂_congr fun p hp => ?_
      rw [Part.readOr_cons_of_ne (Ne.symm (hne p hp))]

theorem record_eq_ok_iff (hl : Part.Lawful blank parts) (hdistinct : Json.Distinct members) :
    (record shape blank (parts.map Part.field)).ofJson (.object members) = .ok r ↔ ∀ p ∈ parts, p.read members = .ok (p.get r) := by
  rw [record_object, ofMembers_eq_ok_iff hl hdistinct]
  refine forall₂_congr fun p hp => ?_
  rw [hl.blank p hp, Part.read]

/-- An object decodes exactly if the members of the names of parts do. -/
theorem exists_record_iff_parts (hl : Part.Lawful blank parts) :
    (∃ r, (record shape blank (parts.map Part.field)).ofJson (.object members) = .ok r) ↔
      ∀ p ∈ parts, ∀ v, (p.name, v) ∈ members → ∃ a, p.decoder.ofJson v = .ok a := by
  simp only [record_object, exists_ofMembers_iff hl]
  exact ⟨fun h p hp v hv => h _ hv p hp rfl, fun h m hm p hp hname => h p hp m.2 (hname ▸ hm)⟩

/-- An object decodes exactly if each of its members does alone. -/
theorem exists_record_iff (hl : Part.Lawful blank parts) :
    (∃ r, (record shape blank (parts.map Part.field)).ofJson (.object members) = .ok r) ↔
      ∀ m ∈ members, ∃ r, (record shape blank (parts.map Part.field)).ofJson (.object [m]) = .ok r := by
  simp only [record_object, exists_ofMembers_iff hl, List.forall_mem_singleton]

end Decoder

end AddressPlan
