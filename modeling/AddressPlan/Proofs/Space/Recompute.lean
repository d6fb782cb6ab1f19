import AddressPlan.Proofs.Space.Carve
import Mathlib.Data.List.Sort

/-!
Carving and computing anew. Ascending spans with gaps between them are determined by their addresses, and every way
to carve keeps the spans ascending. So what is left after any carvings of a computed space is, span for span, what
is computed from the same parent when the carved blocks are listed among the children, in any order.
-/

namespace AddressPlan

open Net

namespace Space

variable {f : Family} {ss ts : List Span} {sp left : Space}

/-! ### The normal form -/

/-- A span of ascending ones is a span of any others that hold the same addresses. -/
theorem Ascending.mem_of_mem (hs : Ascending f ss) (ht : Ascending f ts) (h : ∀ a, (∃ s ∈ ss, a ∈ s) ↔ ∃ t ∈ ts, a ∈ t)
    {s : Span} (hmem : s ∈ ss) : s ∈ ts := by
  -- The span lies in one of the others, which in turn lies in one of the first, and that can only be itself.
  obtain ⟨t, htm, hst⟩ := ht.subset_one (t := s) fun a ha => (h a).mp ⟨s, hmem, ha⟩
  obtain ⟨u, hum, htu⟩ := hs.subset_one (t := t) fun a ha => (h a).mpr ⟨t, htm, ha⟩
  obtain ⟨hf, h1, h2⟩ := Span.subset_iff.mp hst
  obtain ⟨-, h3, h4⟩ := Span.subset_iff.mp htu
  have hself : s = u := by
    have := s.first_le_last
    rcases hs.apart hmem hum with heq | hgap | hgap
    · exact heq
    · omega
    · omega
  subst hself
  have : s = t := Span.ext_bounds hf (Nat.le_antisymm h3 h1) (Nat.le_antisymm h2 h4)
  exact this ▸ htm

/-- Ascending spans with the same addresses are the same spans. -/
theorem Ascending.ext (hs : Ascending f ss) (ht : Ascending f ts) (h : ∀ a, (∃ s ∈ ss, a ∈ s) ↔ ∃ t ∈ ts, a ∈ t) :
    ss = ts := by
  have : Std.Irrefl fun s t : Span => s.last + 1 < t.first :=
    ⟨fun s hlt => by have := s.first_le_last; omega⟩
  have : Std.Antisymm fun s t : Span => s.last + 1 < t.first :=
    ⟨fun s t h1 h2 => by have := s.first_le_last; have := t.first_le_last; omega⟩
  exact hs.gaps.eq_of_mem_iff ht.gaps fun s => ⟨hs.mem_of_mem ht h, ht.mem_of_mem hs fun a => (h a).symm⟩

/-- A space whose spans ascend is the computed one with the same parent and the same addresses. -/
theorem eq_compute {parent : Block} {bs : List Block} (hp : sp.parent = parent) (h : Ascending parent.family sp.free)
    (hmem : ∀ a, a ∈ sp ↔ a ∈ parent ∧ ∀ b ∈ bs, a ∉ b) : sp = compute parent bs := by
  subst hp
  have hfree : sp.free = (compute sp.parent bs).free :=
    h.ext (compute_ascending _ _) fun a => (hmem a).trans mem_compute.symm
  exact congrArg (Space.mk sp.parent) hfree

/-! ### Taking out a block -/

theorem minus_ascending (s t : Span) : Ascending s.family (s.minus t) := by
  have hone : Ascending s.family [s] := Ascending.cons_iff.mpr ⟨rfl, fun _ hu => absurd hu List.not_mem_nil, .nil⟩
  unfold Span.minus
  split
  · have habove : Ascending s.family (s.above? t).toList := by
      cases ha : s.above? t with
      | none => exact .nil
      | some v =>
        have hf := (Span.aboveValue?_eq_some ha).1
        exact Ascending.cons_iff.mpr ⟨hf, fun _ hu => absurd hu List.not_mem_nil, .nil⟩
    cases hb : s.below? t with
    | none => exact habove
    | some u =>
      obtain ⟨hf, -, h2, h3⟩ := Span.belowValue?_eq_some hb
      refine Ascending.cons_iff.mpr ⟨hf, fun v hv => ?_, habove⟩
      obtain ⟨-, h1, -, -⟩ := Span.aboveValue?_eq_some (Option.mem_toList.mp hv)
      have := t.first_le_last
      omega
  · exact hone

theorem minus_bounds {s t u : Span} (hu : u ∈ s.minus t) : u.family = s.family ∧ s.first ≤ u.first ∧ u.last ≤ s.last :=
  Span.subset_iff.mp fun _ ha => (Span.mem_minus.mp ⟨u, hu, ha⟩).1

theorem remove_ascending (h : Ascending f sp.free) (b : Block) : Ascending f (sp.remove b).free := by
  refine ⟨fun u hu => ?_, List.pairwise_flatMap.mpr ⟨fun s _ => (minus_ascending s b.span).gaps, ?_⟩⟩
  · obtain ⟨s, hs, hus⟩ := List.mem_flatMap.mp hu
    exact (minus_bounds hus).1.trans (h.family s hs)
  · refine h.gaps.imp fun {s t} hgap u hu v hv => ?_
    have := (minus_bounds hu).2.2
    have := (minus_bounds hv).2.1
    omega

/-! ### Carvings -/

/-- A way to carve: a given block, the lowest network of a length, or the lowest address. -/
inductive Carving where
  | block (b : Block)
  | network (length : Nat)
  | address

/-- What a carving leaves, and the block that it has taken, unless there was none to take. -/
def carve (sp : Space) : Carving → Space × Option Block
  | .block b => (sp.remove b, some b)
  | .network length =>
    match sp.takeNetwork? length with
    | some (n, left) => (left, some (.network n))
    | none => (sp, none)
  | .address =>
    match sp.takeAddress? with
    | some (a, left) => (left, some (.host a))
    | none => (sp, none)

/-- What carvings leave one after the other, and the blocks that they have taken. -/
def carveAll (sp : Space) : List Carving → Space × List Block
  | [] => (sp, [])
  | k :: ks =>
    let (next, taken) := sp.carve k
    let (left, rest) := next.carveAll ks
    (left, taken.toList ++ rest)

/-- What is left of a space without some blocks: the same parent, and again ascending spans. -/
structure Without (f : Family) (sp : Space) (taken : List Block) (left : Space) : Prop where
  parent : left.parent = sp.parent
  ascending : Ascending f left.free
  mem : ∀ a, a ∈ left ↔ a ∈ sp ∧ ∀ b ∈ taken, a ∉ b

theorem Without.refl (h : Ascending f sp.free) : Without f sp [] sp :=
  ⟨rfl, h, fun _ => ⟨fun ha => ⟨ha, fun _ hb => absurd hb List.not_mem_nil⟩, And.left⟩⟩

theorem Without.trans {next : Space} {bs cs : List Block} (h : Without f sp bs next) (h' : Without f next cs left) :
    Without f sp (bs ++ cs) left where
  parent := h'.parent.trans h.parent
  ascending := h'.ascending
  mem a := by rw [h'.mem, h.mem, List.forall_mem_append, and_assoc]

theorem without_remove (h : Ascending f sp.free) (b : Block) : Without f sp [b] (sp.remove b) where
  parent := rfl
  ascending := remove_ascending h b
  mem a := by rw [mem_remove, List.forall_mem_singleton]

theorem takeAddress?_parent {a : Address} (h : sp.takeAddress? = some (a, left)) : left.parent = sp.parent := by
  unfold takeAddress? at h
  split at h
  · cases h
  · cases h
    rfl

theorem carve_without (h : Ascending f sp.free) (k : Carving) : Without f sp (sp.carve k).2.toList (sp.carve k).1 := by
  cases k with
  | block b => exact without_remove h b
  | network length =>
    cases ht : sp.takeNetwork? length with
    | none =>
      simp only [carve, ht]
      exact .refl h
    | some r =>
      obtain ⟨n, -, rfl⟩ := Option.map_eq_some_iff.mp ht
      simp only [carve, ht]
      exact without_remove h (.network n)
  | address =>
    cases ht : sp.takeAddress? with
    | none =>
      simp only [carve, ht]
      exact .refl h
    | some r =>
      obtain ⟨a, left⟩ := r
      obtain ⟨-, hleft, -, hasc⟩ := takeAddress?_eq_some h ht
      simp only [carve, ht]
      refine ⟨takeAddress?_parent ht, hasc, fun b => ?_⟩
      rw [hleft, Option.toList_some, List.forall_mem_singleton, Block.mem_host]

/-- Any carvings take exactly the blocks that they tell. -/
theorem carveAll_without : ∀ (ks : List Carving) {sp : Space}, Ascending f sp.free →
    Without f sp (sp.carveAll ks).2 (sp.carveAll ks).1
  | [], _, h => .refl h
  | k :: ks, _, h =>
    have hk := carve_without h k
    hk.trans (carveAll_without ks hk.ascending)

/-- After any carvings of a computed space, what is left is what is computed when the blocks that were taken are
listed among the children, in whatever order. -/
theorem carveAll_eq_compute (parent : Block) (children : List Block) (ks : List Carving) (bs : List Block)
    (h : bs.Perm (children ++ ((compute parent children).carveAll ks).2)) :
    ((compute parent children).carveAll ks).1 = compute parent bs := by
  have hleft := carveAll_without ks (compute_ascending parent children)
  refine eq_compute hleft.parent hleft.ascending fun a => ?_
  have hlisted : (∀ b ∈ bs, a ∉ b) ↔ ∀ b ∈ children ++ ((compute parent children).carveAll ks).2, a ∉ b :=
    forall_congr' fun b => by rw [h.mem_iff]
  rw [hleft.mem, mem_compute, hlisted, List.forall_mem_append, and_assoc]

/-- The address with the given number among the first 256 ones. -/
def lowAddress (n : Fin 256) : Address :=
  ⟨.v4, n, Nat.lt_trans n.isLt (by decide)⟩

/-- The first 256 addresses. -/
def lowRange : Block :=
  .range ⟨.v4, 0, 255, by decide, by decide⟩

/-- Four carvings of the first 256 addresses without the lowest one; no network of length 24 is left by then. -/
def lowCarved : Space × List Block :=
  (compute lowRange [.host (lowAddress 0)]).carveAll [.network 25, .block (.host (lowAddress 9)), .network 24, .address]

theorem carveAll_eq_compute_low :
    lowCarved.2 = [.network ⟨lowAddress 128, 25, by decide⟩, .host (lowAddress 9), .host (lowAddress 1)] ∧
      lowCarved.1 = compute lowRange [.host (lowAddress 9), .host (lowAddress 1), .host (lowAddress 0),
        .network ⟨lowAddress 128, 25, by decide⟩] :=
  ⟨by decide +kernel, carveAll_eq_compute lowRange _ _ _ (by decide +kernel)⟩

end Space

end AddressPlan
