import AddressPlan.Proofs.Allocation.Faults
import AddressPlan.Proofs.Decoder.Fields

/-!
How requests are decoded. All fields of a request are optional, so an object decodes exactly if each of its fields does on
its own, and what is reported otherwise are just the fields that do not, each with its own mismatch. In a list, the items are
decoded one by one, and there is one entry for each.
-/

namespace AddressPlan

open Json (Mismatch)
open Decoder (option list string int64 prefixStatus addressStatus prefixRequest addressRequest record)

variable {σ : Type}

/-! ### The parts of requests -/

/-- The parts that the details of a record are made of. -/
def detailParts (get : σ → Details) (update : (Details → Details) → σ → σ) : List (Part σ) :=
  [⟨"tenant", option string, none, fun s => (get s).tenant, fun v => update fun d => { d with tenant := v }⟩,
    ⟨"description", string, "", fun s => (get s).description, fun v => update fun d => { d with description := v }⟩,
    ⟨"tags", list string, [], fun s => (get s).tags, fun v => update fun d => { d with tags := v }⟩]

def PrefixRequest.parts : List (Part PrefixRequest) :=
  [⟨"prefix_length", option int64, none, (·.length), fun v r => { r with length := v }⟩,
    ⟨"status", prefixStatus, .active, (·.status), fun v r => { r with status := v }⟩] ++
    detailParts (·.details) fun f r => { r with details := f r.details }

def AddressRequest.parts : List (Part AddressRequest) :=
  [⟨"status", addressStatus, .active, (·.status), fun v r => { r with status := v }⟩,
    ⟨"dns_name", string, "", (·.dnsName), fun v r => { r with dnsName := v }⟩] ++
    detailParts (·.details) fun f r => { r with details := f r.details }

theorem prefixRequest_eq : prefixRequest = record "PrefixRequest" ⟨none, .active, .blank⟩ (PrefixRequest.parts.map Part.field) :=
  rfl

theorem addressRequest_eq : addressRequest = record "IpAddressRequest" ⟨.active, "", .blank⟩ (AddressRequest.parts.map Part.field) :=
  rfl

theorem PrefixRequest.lawful : Part.Lawful ⟨none, .active, .blank⟩ PrefixRequest.parts where
  names := by decide
  blank := by simp [parts, detailParts, Details.blank]
  get_set := by simp [parts, detailParts]
  get_set_of_ne := by simp [parts, detailParts]
  ext := by
    rintro ⟨_, _, _, _, _⟩ ⟨_, _, _, _, _⟩
    simp [parts, detailParts]

theorem AddressRequest.lawful : Part.Lawful ⟨.active, "", .blank⟩ AddressRequest.parts where
  names := by decide
  blank := by simp [parts, detailParts, Details.blank]
  get_set := by simp [parts, detailParts]
  get_set_of_ne := by simp [parts, detailParts]
  ext := by
    rintro ⟨_, _, _, _, _⟩ ⟨_, _, _, _, _⟩
    simp [parts, detailParts]

/-! ### Messages -/

namespace FieldErrors

variable {e : FieldErrors} {field name message : String}

theorem mem_insertName {names : List String} : field ∈ insertName name names ↔ field = name ∨ field ∈ names := by
  induction names with
  | nil => exact List.mem_cons
  | cons n ns ih =>
    rw [insertName]
    split
    · rename_i heq
      rw [heq, List.mem_cons, or_self_left]
    · split
      · exact List.mem_cons
      · rw [List.mem_cons, ih, List.mem_cons, or_left_comm]

theorem mem_foldl_insertName : ∀ {entries : List (String × String)} {names : List String},
    field ∈ entries.foldl (fun names entry => insertName entry.1 names) names ↔ field ∈ names ∨ ∃ entry ∈ entries, entry.1 = field
  | [], _ => by simp
  | entry :: entries, names => by
    rw [List.foldl_cons, mem_foldl_insertName, mem_insertName]
    simp only [List.mem_cons, exists_eq_or_imp, eq_comm (a := entry.1)]
    rw [or_comm (a := field = entry.1), or_assoc]

/-- The fields are those that have entries. -/
theorem mem_fields : field ∈ e.fields ↔ ∃ entry ∈ e.entries, entry.1 = field := by
  rw [fields, mem_foldl_insertName]
  exact or_iff_right List.not_mem_nil

theorem messages_single_self : (single field message).messages field = [message] := by
  simp [messages, single]

theorem messages_single_of_ne (h : name ≠ field) : (single name message).messages field = [] := by
  simp [messages, single, h]

end FieldErrors

/-! ### Objects -/

namespace Body

variable {d : Decoder σ} {members : List (String × Json)} {m : String × Json} {name : String} {v : Json} {w : Mismatch}
  {e : FieldErrors} {b : Body σ} {es : List FieldErrors}

/-- What is wrong with one member, decoded alone. -/
def memberError (d : Decoder σ) (m : String × Json) : FieldErrors :=
  match d.ofJson (.object [m]) with
  | .ok _ => .empty
  | .error e => .single m.1 e.message

theorem memberErrors_eq (d : Decoder σ) (members : List (String × Json)) :
    memberErrors d members = .join (members.map (memberError d)) := rfl

theorem isEmpty_memberError : (memberError d m).isEmpty = true ↔ ∃ r, d.ofJson (.object [m]) = .ok r := by
  unfold memberError
  cases h : d.ofJson (.object [m]) with
  | ok r => exact iff_of_true rfl ⟨r, rfl⟩
  | error w => exact iff_of_false nofun nofun

theorem mem_fields_memberErrors : name ∈ (memberErrors d members).fields ↔
    ∃ v w, (name, v) ∈ members ∧ d.ofJson (.object [(name, v)]) = .error w := by
  rw [FieldErrors.mem_fields, memberErrors_eq]
  simp only [FieldErrors.join, List.mem_flatMap, List.mem_map]
  constructor
  · rintro ⟨entry, ⟨_, ⟨m, hm, rfl⟩, hentry⟩, rfl⟩
    unfold memberError at hentry
    split at hentry
    · cases hentry
    · rename_i w hw
      obtain rfl := List.mem_singleton.mp hentry
      exact ⟨m.2, w, hm, hw⟩
  · rintro ⟨v, w, hm, hw⟩
    refine ⟨(name, w.message), ⟨_, ⟨(name, v), hm, rfl⟩, ?_⟩, rfl⟩
    rw [memberError, hw]
    exact List.mem_singleton_self _

theorem messages_memberError_of_ne (h : m.1 ≠ name) : (memberError d m).messages name = [] := by
  unfold memberError
  split
  · rfl
  · exact FieldErrors.messages_single_of_ne h

/-- Where names are different, there is one message about a member that does not decode. -/
theorem messages_memberErrors (hdistinct : Json.Distinct members) (hm : (name, v) ∈ members)
    (hw : d.ofJson (.object [(name, v)]) = .error w) : (memberErrors d members).messages name = [w.message] := by
  obtain ⟨before, after, rfl⟩ := List.append_of_mem hm
  rw [Json.Distinct, List.map_append, List.nodup_append, List.map_cons] at hdistinct
  obtain ⟨-, hafter, hbefore⟩ := hdistinct
  have hsilent : ∀ ms : List (String × Json), (∀ m ∈ ms, m.1 ≠ name) →
      (ms.map (memberError d)).flatMap (·.messages name) = [] := fun ms hne => by
    refine List.flatMap_eq_nil_iff.mpr (List.forall_mem_map.mpr fun m hm => ?_)
    exact messages_memberError_of_ne (hne m hm)
  have hone : (memberError d (name, v)).messages name = [w.message] := by
    rw [memberError, hw]
    exact FieldErrors.messages_single_self
  rw [memberErrors_eq, FieldErrors.messages_join, List.map_append, List.map_cons, List.flatMap_append, List.flatMap_cons, hone,
    hsilent before, hsilent after]
  · rfl
  · intro m hm heq
    exact (List.nodup_cons.mp hafter).1 (List.mem_map.mpr ⟨m, hm, heq⟩)
  · intro m hm heq
    exact hbefore m.1 (List.mem_map_of_mem hm) name List.mem_cons_self heq

theorem item_of_ok {r : σ} (h : d.ofJson (.object members) = .ok r) : item d (.object members) = .ok r := by
  simp only [item, h]

theorem item_of_error (h : d.ofJson (.object members) = .error w) : item d (.object members) =
    .error (if (memberErrors d members).isEmpty then .single wholeItem w.message else memberErrors d members) := by
  simp only [item, h]

/-- Only an object is an item. -/
def Decodes (d : Decoder σ) (v : Json) : Prop :=
  ∃ members r, v = .object members ∧ d.ofJson v = .ok r

theorem item_eq_ok_iff {r : σ} : item d v = .ok r ↔ ∃ members, v = .object members ∧ d.ofJson v = .ok r := by
  cases v with
  | object members =>
    cases h : d.ofJson (.object members) with
    | ok a =>
      rw [item_of_ok h]
      exact ⟨fun h => ⟨members, rfl, congrArg Except.ok (Except.ok.inj h)⟩, fun ⟨_, _, h⟩ => congrArg Except.ok (Except.ok.inj h)⟩
    | error w =>
      rw [item_of_error h]
      exact iff_of_false nofun fun ⟨_, _, h⟩ => nomatch h
  | null | bool | number | string | array => exact iff_of_false nofun fun ⟨_, h, _⟩ => nomatch h

theorem item_object_eq_ok_iff {r : σ} : item d (.object members) = .ok r ↔ d.ofJson (.object members) = .ok r :=
  item_eq_ok_iff.trans ⟨fun ⟨_, _, h⟩ => h, fun h => ⟨members, rfl, h⟩⟩

theorem decodes_iff : Decodes d v ↔ ∃ r, item d v = .ok r := by
  simp only [item_eq_ok_iff]
  exact exists_comm

/-- Where an object decodes if each of its members does, one that does not is blamed on its members. -/
theorem item_object_eq_error (hwhole : (∀ m ∈ members, ∃ r, d.ofJson (.object [m]) = .ok r) → ∃ r, d.ofJson (.object members) = .ok r)
    (h : item d (.object members) = .error e) : e = memberErrors d members := by
  cases hobject : d.ofJson (.object members) with
  | ok r =>
    rw [item_of_ok hobject] at h
    cases h
  | error w =>
    have hfound : ¬ (memberErrors d members).isEmpty = true := by
      rw [memberErrors_eq, FieldErrors.isEmpty_join, List.forall_mem_map]
      intro hempty
      obtain ⟨r, hr⟩ := hwhole fun m hm => isEmpty_memberError.mp (hempty m hm)
      exact nomatch hr.symm.trans hobject
    rw [item_of_error hobject, if_neg hfound] at h
    exact (Except.error.inj h).symm

theorem decode_of_not_array (h : v.isArray = false) : decode d v = ((item d v).map one).mapError ([·]) := by
  cases v with
  | array => cases h
  | null | bool | number | string | object => rfl

theorem decode_eq_ok_iff (h : v.isArray = false) : decode d v = .ok b ↔ ∃ r, b = .one r ∧ item d v = .ok r := by
  rw [decode_of_not_array h, mapError_eq_ok, map_eq_ok]
  exact exists_congr fun r => ⟨fun ⟨hr, hb⟩ => ⟨hb.symm, hr⟩, fun ⟨hb, hr⟩ => ⟨hr, hb.symm⟩⟩

theorem decode_eq_error_iff (h : v.isArray = false) : decode d v = .error es ↔ ∃ e, es = [e] ∧ item d v = .error e := by
  rw [decode_of_not_array h, mapError_eq_error]
  exact exists_congr fun e => ⟨fun ⟨hr, hb⟩ => ⟨hb.symm, map_eq_error.mp hr⟩, fun ⟨hb, hr⟩ => ⟨map_eq_error.mpr hr, hb.symm⟩⟩

end Body

/-- A member of the name of a part does not decode. -/
def Part.IllTyped (parts : List (Part σ)) (members : List (String × Json)) (name : String) (w : Mismatch) : Prop :=
  ∃ v, (name, v) ∈ members ∧ ∃ p ∈ parts, p.name = name ∧ p.decoder.ofJson v = .error w

/-- An object is decoded field by field. It decodes exactly if each member of the name of a part does, and the parts of the
result are what these members decode to, or their defaults. Otherwise the one entry that is reported has the names of the
members that do not decode, each with its mismatch and nothing else. That is also the mismatch of the member alone. -/
structure Body.ByField (d : Decoder σ) (parts : List (Part σ)) (members : List (String × Json)) : Prop where
  decodes : (∃ b, decode d (.object members) = .ok b) ↔
    ∀ p ∈ parts, ∀ v, (p.name, v) ∈ members → ∃ a, p.decoder.ofJson v = .ok a
  result : ∀ b, decode d (.object members) = .ok b ↔ ∃ r, b = .one r ∧ ∀ p ∈ parts, p.read members = .ok (p.get r)
  entry : ∀ es, decode d (.object members) = .error es → ∃ e, es = [e] ∧
    (∀ name, name ∈ e.fields ↔ ∃ w, Part.IllTyped parts members name w) ∧
    (∀ name w, Part.IllTyped parts members name w → e.messages name = [w.message]) ∧ wholeItem ∉ e.fields
  alone : ∀ name w, Part.IllTyped parts members name w ↔
    ∃ v, (name, v) ∈ members ∧ d.ofJson (.object [(name, v)]) = .error w

/-- A list is decoded item by item. It fails exactly if some item is no object or does not decode, and then there is one entry
for each item, in order, which is empty exactly for those that decode. An entry is what the item is reported for alone. -/
structure Body.ItemByItem (d : Decoder σ) (vs : List Json) : Prop where
  fails : (∃ es, decode d (.array vs) = .error es) ↔ ∃ v ∈ vs, ¬ Decodes d v
  entries : ∀ es, decode d (.array vs) = .error es → List.Forall₂ (fun v e => (e.isEmpty = true ↔ Decodes d v) ∧
    (v.isArray = false → ∀ alone, decode d v = .error alone → alone = [e])) vs es
  items : ∀ b, decode d (.array vs) = .ok b → ∃ rs, b = .many rs ∧
    List.Forall₂ (fun v r => ∃ members, v = .object members ∧ d.ofJson v = .ok r) vs rs

namespace Body

theorem byField {blank : σ} {parts : List (Part σ)} {members : List (String × Json)} {shape : String}
    (hl : Part.Lawful blank parts) (hwhole : wholeItem ∉ parts.map (·.name)) (hdistinct : Json.Distinct members) :
    ByField (record shape blank (parts.map Part.field)) parts members := by
  let d := record shape blank (parts.map Part.field)
  have halone : ∀ name w, Part.IllTyped parts members name w ↔
      ∃ v, (name, v) ∈ members ∧ d.ofJson (.object [(name, v)]) = .error w := fun name w =>
    exists_congr fun v => and_congr_right fun _ => (Decoder.alone_eq_error hl).symm
  refine ⟨?_, fun b => ?_, fun es hes => ?_, halone⟩
  · simp only [decode_eq_ok_iff (v := .object members) rfl, item_object_eq_ok_iff]
    rw [exists_comm]
    simp only [exists_eq_left]
    exact Decoder.exists_record_iff_parts hl
  · rw [decode_eq_ok_iff rfl]
    refine exists_congr fun r => and_congr_right fun _ => item_object_eq_ok_iff.trans ?_
    exact Decoder.record_eq_ok_iff hl hdistinct
  · obtain ⟨e, rfl, he⟩ := (decode_eq_error_iff rfl).mp hes
    obtain rfl := item_object_eq_error (Decoder.exists_record_iff hl).mpr he
    have hfields : ∀ name, name ∈ (memberErrors d members).fields ↔ ∃ w, Part.IllTyped parts members name w := fun name => by
      rw [mem_fields_memberErrors, exists_comm]
      exact exists_congr fun w => (halone name w).symm
    refine ⟨_, rfl, hfields, fun name w hw => ?_, fun hmem => ?_⟩
    · obtain ⟨v, hv, hw⟩ := (halone name w).mp hw
      exact messages_memberErrors hdistinct hv hw
    · obtain ⟨w, v, -, p, hp, hname, -⟩ := (hfields wholeItem).mp hmem
      exact hwhole (hname ▸ List.mem_map_of_mem hp)

theorem itemByItem (d : Decoder σ) (vs : List Json) : ItemByItem d vs where
  fails := by
    constructor
    · rintro ⟨es, hes⟩
      obtain ⟨rfl, e, he, hne⟩ := decode_eq_error hes
      obtain ⟨v, hv, rfl⟩ := List.mem_map.mp he
      refine ⟨v, hv, fun hdecodes => ?_⟩
      rw [isEmpty_fault.mpr (decodes_iff.mp hdecodes)] at hne
      cases hne
    · rintro ⟨v, hv, hnot⟩
      cases hdecode : decode d (.array vs) with
      | error es => exact ⟨es, rfl⟩
      | ok b =>
        obtain ⟨r, -, hr⟩ := exists_left_of_mem (decode_eq_ok hdecode).flip hv
        exact absurd (decodes_iff.mpr ⟨r, hr⟩) hnot
  entries es hes := by
    obtain ⟨rfl, -⟩ := decode_eq_error hes
    refine List.forall₂_map_right_iff.mpr (List.forall₂_same.mpr fun v _ => ⟨isEmpty_fault.trans decodes_iff.symm, ?_⟩)
    intro hv alone halone
    obtain ⟨e, rfl, he⟩ := (decode_eq_error_iff hv).mp halone
    rw [fault, he]
  items b hb := by
    have hitems := decode_eq_ok hb
    obtain ⟨rs, rfl⟩ : ∃ rs, b = .many rs := by
      simp only [decode] at hb
      split at hb
      · cases hb
      · exact ⟨_, (Except.ok.inj hb).symm⟩
    exact ⟨rs, rfl, hitems.imp fun v r hr => item_eq_ok_iff.mp hr⟩

end Body

/-! ### Requests -/

/-- Requests of either kind are decoded field by field from objects, and item by item from lists. -/
theorem requests_by_field (members : List (String × Json)) (hdistinct : Json.Distinct members) (vs : List Json) :
    (Body.ByField prefixRequest PrefixRequest.parts members ∧ Body.ItemByItem prefixRequest vs) ∧
      Body.ByField addressRequest AddressRequest.parts members ∧ Body.ItemByItem addressRequest vs := by
  rw [prefixRequest_eq, addressRequest_eq]
  exact ⟨⟨Body.byField PrefixRequest.lawful (by decide) hdistinct, Body.itemByItem _ vs⟩,
    Body.byField AddressRequest.lawful (by decide) hdistinct, Body.itemByItem _ vs⟩

/-- A status in its longer form, a member that is no field, and three that do not decode, one of them only for prefixes. -/
def mistyped : List (String × Json) :=
  Json.ordered [("tags", .string "web"), ("status", .object [("reserved", .null)]), ("prefix_length", .string "abc"),
    ("note", .bool true), ("description", .null)]

/-- The members that do not decode are reported, for prefixes and for addresses, and an array says so of each item. -/
theorem requests_by_field_mistyped : Json.Distinct mistyped ∧
    (∃ e, Body.decode prefixRequest (.object mistyped) = .error [e] ∧ e.fields = ["description", "prefix_length", "tags"] ∧
      (∀ name, name ∈ e.fields ↔ ∃ w, Part.IllTyped PrefixRequest.parts mistyped name w) ∧
      e.messages "tags" = ["invalid type: string \"web\", expected a sequence"]) ∧
    (∃ e, Body.decode addressRequest (.object mistyped) = .error [e] ∧ e.fields = ["description", "tags"] ∧
      ∀ name, name ∈ e.fields ↔ ∃ w, Part.IllTyped AddressRequest.parts mistyped name w) ∧
    ∃ es, Body.decode addressRequest (.array [.object [], .object mistyped, .null]) = .error es := by
  have hdistinct : Json.Distinct mistyped := Json.distinct_ordered _
  obtain ⟨⟨hsubnets, -⟩, haddress, hitems⟩ := requests_by_field mistyped hdistinct [.object [], .object mistyped, .null]
  have hprefixes : (Body.decode prefixRequest (.object mistyped)).mapError (·.map fun e => (e.fields, e.messages "tags")) =
      .error [(["description", "prefix_length", "tags"], ["invalid type: string \"web\", expected a sequence"])] := by
    decide +kernel
  have haddresses : (Body.decode addressRequest (.object mistyped)).mapError (·.map (·.fields)) =
      .error [["description", "tags"]] := by decide +kernel
  obtain ⟨es, hes, hshown⟩ := mapError_eq_error.mp hprefixes
  obtain ⟨e, rfl, hfields, -, -⟩ := hsubnets.entry es hes
  obtain ⟨es', hes', hshown'⟩ := mapError_eq_error.mp haddresses
  obtain ⟨e', rfl, hfields', -, -⟩ := haddress.entry es' hes'
  obtain ⟨heq, hmessages⟩ := Prod.mk.inj (List.cons.inj hshown).1
  refine ⟨hdistinct, ⟨e, hes, heq, hfields, hmessages⟩, ⟨e', hes', (List.cons.inj hshown').1, hfields'⟩, ?_⟩
  exact hitems.fails.mpr ⟨.null, by simp, fun ⟨_, _, h, _⟩ => nomatch h⟩

end AddressPlan
