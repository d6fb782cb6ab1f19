import AddressPlan.Proofs.Allocation.AsListed
import AddressPlan.Proofs.Net.Text
import AddressPlan.Proofs.Text.Blank
import AddressPlan.Service.Basic

/-!
How many addresses a listing shows. The number that is asked for, or else the usual one, is cut to the most that is allowed.
What is asked for counts if it is positive, and so is the usual number in a valid configuration: a listing is empty only if no
address is free.
-/

namespace AddressPlan

open Net Text

variable {text : String} {asked : Option String} {n : Nat} {cs : List Char}

/-! ### What is asked for -/

/-- Decimal digits with a plus sign in front, if there is one. -/
def IsSigned (cs : List Char) (n : Nat) : Prop :=
  ∃ sign digits, (sign = [] ∨ sign = ['+']) ∧ cs = sign ++ digits ∧ IsDecimal digits n

/-- A positive number of 64 bits, with blanks around. -/
def Asks (text : String) (n : Nat) : Prop :=
  0 < n ∧ n < 2 ^ (64 : Nat) ∧ ∃ before signed after, text.toList = before ++ (signed ++ after) ∧
    (∀ c ∈ before, isBlank c = true) ∧ (∀ c ∈ after, isBlank c = true) ∧ IsSigned signed n

theorem IsSigned.isBlank (h : IsSigned cs n) : ∀ c ∈ cs, isBlank c = false := by
  obtain ⟨sign, digits, hsign, rfl, ds, -, hds, rfl, -⟩ := h
  intro c hc
  rcases List.mem_append.mp hc with hc | hc
  · rcases hsign with rfl | rfl
    · cases hc
    · rw [List.mem_singleton.mp hc]
      decide
  · obtain ⟨d, hd, rfl⟩ := List.mem_map.mp hc
    exact isBlank_of_digit (Option.isSome_of_eq_some (digit?_digitChar (by omega) (hds d hd)))

theorem isSigned_iff : number? 10 (if cs.head? = some '+' then cs.drop 1 else cs) = some n ↔ IsSigned cs n := by
  constructor
  · intro h
    split at h
    · rename_i hplus
      obtain ⟨digits, rfl⟩ := List.head?_eq_some_iff.mp hplus
      exact ⟨['+'], digits, Or.inr rfl, rfl, number?_ten_eq_some.mp h⟩
    · exact ⟨[], cs, Or.inl rfl, rfl, number?_ten_eq_some.mp h⟩
  · rintro ⟨sign, digits, rfl | rfl, rfl, hdigits⟩
    · rw [if_neg]
      · exact number?_ten_eq_some.mpr hdigits
      · -- No digit is a plus sign.
        obtain ⟨ds, hne, hds, rfl, -⟩ := hdigits
        obtain ⟨d, ds, rfl⟩ := List.exists_cons_of_ne_nil hne
        have hall : ∀ d < 10, Nat.digitChar d ≠ '+' := by decide
        exact fun h => hall d (hds d List.mem_cons_self) (Option.some.inj h)
    · exact number?_ten_eq_some.mpr hdigits

theorem asks_iff : Asks text n ↔ IsSigned (trim text.toList) n ∧ 0 < n ∧ n ≤ Json.maxInteger := by
  constructor
  · rintro ⟨hpos, hlt, before, signed, after, htext, hbefore, hafter, hsigned⟩
    rw [htext, trim_append hbefore hsigned.isBlank hafter]
    exact ⟨hsigned, hpos, Nat.le_sub_one_of_lt hlt⟩
  · rintro ⟨hsigned, hpos, hle⟩
    obtain ⟨before, after, htext, hbefore, hafter⟩ := exists_blanks_around text.toList
    exact ⟨hpos, Nat.lt_of_le_of_lt hle (by decide), before, _, after, htext, hbefore, hafter, hsigned⟩

theorem Asks.unique {m : Nat} (hm : Asks text m) (hn : Asks text n) : m = n := by
  have hm := isSigned_iff.mpr (asks_iff.mp hm).1
  have hn := isSigned_iff.mpr (asks_iff.mp hn).1
  exact Option.some.inj (hm.symm.trans hn)

namespace Pagination

variable {p : Pagination}

/-- The number of addresses that are wanted: what is asked for, and the usual number if that says nothing. -/
inductive Wants (p : Pagination) : Option String → Nat → Prop where
  | asked {text : String} {n : Nat} (h : Asks text n) : Wants p (some text) n
  | usual {asked : Option String} (h : ∀ text ∈ asked, ∀ n, ¬ Asks text n) : Wants p asked p.count

theorem Wants.unique {m : Nat} (hm : p.Wants asked m) (hn : p.Wants asked n) : m = n := by
  cases hm with
  | asked hm =>
    cases hn with
    | asked hn => exact hm.unique hn
    | usual hnone => exact absurd hm (hnone _ rfl _)
  | usual hnone =>
    cases hn with
    | asked hn => exact absurd hn (hnone _ rfl _)
    | usual => rfl

theorem Wants.pos (h : p.Wants asked n) (hcount : 0 < p.count) : 0 < n := by
  cases h with
  | asked h => exact h.1
  | usual => exact hcount

/-- A number within the bound, if there is one. -/
def cut (p : Pagination) (n : Nat) : Nat :=
  if 0 < p.most then min n p.most else n

theorem cut_pos (hn : 0 < n) : 0 < p.cut n := by
  unfold cut
  split
  · rename_i hmost
    exact Nat.lt_min.mpr ⟨hn, hmost⟩
  · exact hn

theorem cut_le (hmost : 0 < p.most) : p.cut n ≤ p.most := by
  rw [cut, if_pos hmost]
  exact Nat.min_le_right _ _

theorem limit_eq_cut (p : Pagination) (asked : Option String) : ∃ n, p.Wants asked n ∧ p.limit asked = p.cut n := by
  unfold limit
  dsimp only
  cases asked with
  | none => exact ⟨p.count, .usual nofun, rfl⟩
  | some text =>
    rw [Option.bind_some]
    cases hnumber : Option.filter _ _ with
    | none =>
      refine ⟨p.count, .usual fun t ht n hn => ?_, rfl⟩
      cases ht
      obtain ⟨hsigned, hrange⟩ := asks_iff.mp hn
      exact Option.filter_eq_none_iff.mp hnumber n (isSigned_iff.mpr hsigned) (decide_eq_true hrange)
    | some n =>
      obtain ⟨hsigned, hrange⟩ := Option.filter_eq_some_iff.mp hnumber
      exact ⟨n, .asked (asks_iff.mpr ⟨isSigned_iff.mp hsigned, of_decide_eq_true hrange⟩), rfl⟩

end Pagination

theorem Config.count_pos {cfg : Config} (h : cfg.validate = .ok ()) : 0 < cfg.pagination.count := by
  refine Nat.pos_of_ne_zero fun hcount => ?_
  have hproblem : cfg.problem? ≠ none := by
    unfold problem?
    dsimp only
    rw [if_pos hcount]
    split
    · exact nofun
    · split
      · exact nofun
      · split <;> exact nofun
  obtain ⟨e, he⟩ := Option.ne_none_iff_exists'.mp hproblem
  rw [validate, he] at h
  cases h

/-! ### The listing -/

/-- An item of a listing: a host with the mask length of the parent. -/
def ShowsHost (c : Catalog) (parent : Parent) (vrf : Option Vrf) (x : Address) (item : Json) : Prop :=
  ∃ host : Network, host.address = x ∧ c.parentLength? parent = some host.length ∧
    item = .object [("address", .string host.text), ("family", .nat x.family.version), ("vrf", Response.vrfJson vrf)]

variable {c : Catalog} {parent : Parent} {scope : Scope}

theorem showsHost_of_mem (hs : c.scope parent .addresses = .ok scope) {x : Address} (hx : x ∈ scope.space) :
    ShowsHost c parent scope.vrf x (Response.freeAddressJson scope x) := by
  have hfamily : x.family = scope.family := (Catalog.mem_space.mp hx).1.1
  let host : Network := ⟨x, scope.maskLength, Catalog.maskLength_le_of_mem hs hx⟩
  refine ⟨host, rfl, Catalog.parentLength?_of_scope hs, ?_⟩
  rw [Response.freeAddressJson, Network.text_eq, hfamily]

theorem length_lowest (hs : c.scope parent .addresses = .ok scope) (k : Nat) :
    (scope.space.lowest k).length = min k {x | c.Vacant parent .addresses x}.ncard := by
  rw [Catalog.ncard_vacant hs, Space.lowest_eq_take, List.length_take, Space.size_eq_length]

namespace Service

variable {a : Allocator} {s : Site}

theorem getAddresses_apply (hkept : a.store.kept s.clock s = .ok c) (hs : c.scope parent .addresses = .ok scope)
    (asked : Option String) (p : Pagination) : ∃ events, getAddresses a parent asked p s =
      .ok (.listing ((scope.space.lowest (p.limit asked)).map (Response.freeAddressJson scope))) { s with events := events } := by
  have hlisted : a.availableAddresses parent (p.limit asked) s = _ := Allocator.listing_apply hkept
  rw [hs] at hlisted
  exact ⟨_, by rw [getAddresses, answer, hlisted]⟩

/-- A listing of addresses of a parent whose scope can be loaded, in a valid configuration, is answered whatever is asked for,
and leaves the site as it is but for events. It shows the lowest free addresses as hosts of the parent, as many as are wanted
and allowed, or all of them; at least one is allowed, so nothing is shown exactly if nothing is free. -/
theorem listing_paged (a : Allocator) (s : Site) (cfg : Config) (c : Catalog) (parent : Parent) (scope : Scope)
    (asked : Option String) (hvalid : cfg.validate = .ok ()) (hkept : a.store.kept s.clock s = .ok c)
    (hs : c.scope parent .addresses = .ok scope) :
    ∃ wanted listed items events, cfg.pagination.Wants asked wanted ∧ 1 ≤ cfg.pagination.cut wanted ∧
      (0 < cfg.pagination.most → cfg.pagination.cut wanted ≤ cfg.pagination.most) ∧
      getAddresses a parent asked cfg.pagination s = .ok ⟨200, .array items⟩ { s with events := events } ∧
      items.length = min (cfg.pagination.cut wanted) {x | c.Vacant parent .addresses x}.ncard ∧
      LowestFree (c.Vacant parent .addresses) (cfg.pagination.cut wanted) listed ∧
      List.Forall₂ (ShowsHost c parent scope.vrf) listed items ∧ (items = [] ↔ ∀ x, ¬ c.Vacant parent .addresses x) := by
  obtain ⟨wanted, hwants, hlimit⟩ := cfg.pagination.limit_eq_cut asked
  obtain ⟨events, hanswer⟩ := getAddresses_apply hkept hs asked cfg.pagination
  rw [hlimit] at hanswer
  have hpos : 0 < cfg.pagination.cut wanted := Pagination.cut_pos (hwants.pos (Config.count_pos hvalid))
  have hlowest := Allocator.lowest_of_scope hs (cfg.pagination.cut wanted)
  refine ⟨wanted, _, _, events, hwants, hpos, Pagination.cut_le, hanswer, ?_, hlowest, ?_, ?_⟩
  · rw [List.length_map, length_lowest hs]
  · rw [List.forall₂_map_right_iff, List.forall₂_same]
    exact fun x hx => showsHost_of_mem hs ((Catalog.mem_space_iff_vacant hs).mpr (hlowest.free_of_mem x hx))
  · rw [List.map_eq_nil_iff]
    exact hlowest.eq_nil_iff hpos

/-! ### Two addresses, one at a time -/

open Allocator (inMemory site)

/-- A configuration in which a listing shows one address. -/
def oneByOne : Config :=
  { Config.default with pagination := ⟨1, 1⟩ }

/-- Two addresses are free and two are asked for, but only the lower one is shown. -/
theorem listing_paged_pair : oneByOne.validate = .ok () ∧ inMemory.store.kept (site .pair).clock (site .pair) = .ok .pair ∧
    Asks " +2 " 2 ∧ {x | Catalog.pair.Vacant (.prefixRecord 1) .addresses x}.ncard = 2 ∧ ∃ x item events scope,
      Catalog.pair.scope (.prefixRecord 1) .addresses = .ok scope ∧
      getAddresses inMemory (.prefixRecord 1) (some " +2 ") oneByOne.pagination (site .pair) =
        .ok ⟨200, .array [item]⟩ { site .pair with events := events } ∧
      LowestFree (Catalog.pair.Vacant (.prefixRecord 1) .addresses) 1 [x] ∧
      ShowsHost .pair (.prefixRecord 1) scope.vrf x item := by
  obtain ⟨scope, hs⟩ : ∃ scope, Catalog.pair.scope (.prefixRecord 1) .addresses = .ok scope := ⟨_, rfl⟩
  have hsize : (Catalog.pair.scope (.prefixRecord 1) .addresses).toOption.map (·.space.size) = some 2 := by decide +kernel
  rw [hs] at hsize
  have hfree : {x | Catalog.pair.Vacant (.prefixRecord 1) .addresses x}.ncard = 2 :=
    (Catalog.ncard_vacant hs).trans (Option.some.inj hsize)
  have hasks : Asks " +2 " 2 := asks_iff.mpr ⟨isSigned_iff.mp (by decide), by decide, by decide⟩
  obtain ⟨wanted, listed, items, events, hwants, -, -, hanswer, hlength, hlowest, hshown, -⟩ :=
    listing_paged inMemory (site .pair) oneByOne .pair (.prefixRecord 1) scope (some " +2 ") rfl rfl hs
  obtain rfl : wanted = 2 := hwants.unique (.asked hasks)
  rw [hfree] at hlength
  obtain ⟨item, rfl⟩ : ∃ item, items = [item] := List.length_eq_one_iff.mp hlength
  obtain ⟨x, rest, hitem, hrest, rfl⟩ := List.forall₂_cons_right_iff.mp hshown
  obtain rfl := List.forall₂_nil_right_iff.mp hrest
  exact ⟨rfl, rfl, hasks, hfree, x, item, events, scope, hs, hanswer, hlowest, hitem⟩

end Service

end AddressPlan
