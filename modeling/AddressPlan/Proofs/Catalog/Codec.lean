import AddressPlan.Catalog.Codec
import AddressPlan.Proofs.Decoder.Accepts
import AddressPlan.Proofs.Net.Text
import AddressPlan.Proofs.Time.Text

/-!
The text of a catalog is read back as that catalog. Every record is written with all of its fields, so nothing is left
to the defaults of the reader, the current time least of all.
-/

namespace AddressPlan.Decoder

open Net

variable {σ α : Type} {now : Time.Timestamp}

/-! ### Fields -/

theorem accepts_network (n : Network) : Accepts network (.string n.text) n := by
  refine accepts_parsed ?_
  rw [Network.text, String.toList_ofList, Network.ofChars?_chars]

theorem accepts_timestamp (t : Time.Timestamp) : Accepts timestamp (.string t.text) t := by
  refine accepts_parsed ?_
  rw [Time.Timestamp.ofText_text]
  rfl

theorem accepts_id (o : Option RecordId) : Accepts (option recordId) (.ofId o) o :=
  accepts_ofOption accepts_uint64 (fun id => head_nat id.toNat) o

theorem accepts_label (o : Option String) : Accepts (option string) (.ofOption .string o) o :=
  accepts_ofOption accepts_string head_string o

theorem accepts_labels (labels : List String) : Accepts (list string) (.strings labels) labels :=
  accepts_list fun s _ => accepts_string s

theorem accepts_prefixStatus (s : PrefixStatus) : Accepts prefixStatus (.string s.name) s :=
  accepts_choice (by cases s <;> rfl)

theorem accepts_rangeStatus (s : RangeStatus) : Accepts rangeStatus (.string s.name) s :=
  accepts_choice (by cases s <;> rfl)

theorem accepts_addressStatus (s : AddressStatus) : Accepts addressStatus (.string s.name) s :=
  accepts_choice (by cases s <;> rfl)

/-! ### Records -/

theorem accepts_vrf (v : Vrf) : Accepts vrf v.toJson v := by
  refine accepts_record ?_
  refine .member rfl rfl ((accepts_uint64 v.id).map _) ?_
  refine .member rfl rfl ((accepts_string v.name).map _) ?_
  refine .member rfl rfl ((accepts_label v.rd).map _) ?_
  refine .member rfl rfl ((accepts_bool v.enforceUnique).map _) ?_
  exact .done rfl

theorem accepts_prefixRecord (p : PrefixRecord) : Accepts (prefixRecord now) p.toJson p := by
  refine accepts_record ?_
  refine .member rfl rfl ((accepts_uint64 p.id).map _) ?_
  refine .member rfl rfl ((accepts_network p.network).map _) ?_
  refine .member rfl rfl ((accepts_id p.vrf).map _) ?_
  refine .member rfl rfl ((accepts_prefixStatus p.status).map _) ?_
  refine .member rfl rfl ((accepts_label p.details.tenant).map _) ?_
  refine .member rfl rfl ((accepts_string p.details.description).map _) ?_
  refine .member rfl rfl ((accepts_labels p.details.tags).map _) ?_
  refine .member rfl rfl ((accepts_timestamp p.created).map _) ?_
  exact .done rfl

theorem accepts_rangeRecord (r : RangeRecord) : Accepts (rangeRecord now) r.toJson r := by
  refine accepts_record ?_
  refine .member rfl rfl ((accepts_uint64 r.id).map _) ?_
  refine .member rfl rfl ((accepts_network r.start).map _) ?_
  refine .member rfl rfl ((accepts_network r.stop).map _) ?_
  refine .member rfl rfl ((accepts_id r.vrf).map _) ?_
  refine .member rfl rfl ((accepts_rangeStatus r.status).map _) ?_
  refine .member rfl rfl ((accepts_label r.details.tenant).map _) ?_
  refine .member rfl rfl ((accepts_string r.details.description).map _) ?_
  refine .member rfl rfl ((accepts_labels r.details.tags).map _) ?_
  refine .member rfl rfl ((accepts_timestamp r.created).map _) ?_
  exact .done rfl

theorem accepts_addressRecord (a : AddressRecord) : Accepts (addressRecord now) a.toJson a := by
  refine accepts_record ?_
  refine .member rfl rfl ((accepts_uint64 a.id).map _) ?_
  refine .member rfl rfl ((accepts_network a.host).map _) ?_
  refine .member rfl rfl ((accepts_id a.vrf).map _) ?_
  refine .member rfl rfl ((accepts_addressStatus a.status).map _) ?_
  refine .member rfl rfl ((accepts_string a.dnsName).map _) ?_
  refine .member rfl rfl ((accepts_label a.details.tenant).map _) ?_
  refine .member rfl rfl ((accepts_string a.details.description).map _) ?_
  refine .member rfl rfl ((accepts_labels a.details.tags).map _) ?_
  refine .member rfl rfl ((accepts_timestamp a.created).map _) ?_
  exact .done rfl

theorem accepts_catalog (c : Catalog) : Accepts (catalog now) c.toJson c := by
  refine accepts_record ?_
  refine .member rfl rfl ((accepts_list fun v _ => accepts_vrf v).map _) ?_
  refine .member rfl rfl ((accepts_list fun p _ => accepts_prefixRecord p).map _) ?_
  refine .member rfl rfl ((accepts_list fun r _ => accepts_rangeRecord r).map _) ?_
  refine .member rfl rfl ((accepts_list fun a _ => accepts_addressRecord a).map _) ?_
  refine .member rfl rfl ((accepts_uint64 c.nextId).map _) ?_
  exact .done rfl

end AddressPlan.Decoder

namespace AddressPlan.Catalog

theorem ofText_text (now : Time.Timestamp) (source : Json.Source) (c : Catalog) : ofText now source c.text = .ok c :=
  (Decoder.accepts_catalog c).ofText source

end AddressPlan.Catalog
