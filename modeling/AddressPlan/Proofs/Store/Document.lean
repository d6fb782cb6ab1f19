import AddressPlan.Proofs.Catalog.Scope
import AddressPlan.Proofs.Store.Transaction

/-!
The document in the file. A commit writes the text of the catalog beside the file and moves it there, so this text is what
is read next, and it says all there is to say: reading it gives the same catalog, at any time and from any source.
-/

namespace AddressPlan

/-- The reason is that files could not be used. -/
def StoreError.isIo : StoreError → Bool
  | .io _ (.fault _) => true
  | .io _ .locked | .format .. | .catalog _ => false

theorem StoreError.waits_eq_false {e : StoreError} (h : e.isIo = true) : e.waits = false := by
  cases e with
  | io path why =>
    cases why with
    | fault e => rfl
    | locked => cases h
  | format path why => rfl
  | catalog e => rfl

namespace Store

variable {s t : Site} {path : String} {c : Catalog}

theorem load_of_text {fs : Files} (h : fs.read path = .ok c.text) (now : Clock) : load now fs path = .ok c := by
  rw [load, h]
  exact congrArg (Except.mapError _) (Catalog.ofText_text now.start .stream c)

/-- What is published is the text of the file from then on; if that fails, the file has the text it had. -/
theorem publish_file_meets (path : String) (c : Catalog) (s : Site) :
    (publish c (file path)).Meets s (fun _ t => t.files.read path = .ok c.text ∧ t.files.working = s.files.working)
      fun e t => e.isIo = true ∧ t.files.read path = s.files.read path := by
  have hwrite : (Act.changeFiles (·.write (temporaryPath path) (some c.text))).Ends s
      (fun _ t => s.files.write (temporaryPath path) (some c.text) = .ok t.files ∧ t.files.read path = s.files.read path)
      fun t => t.files.read path = s.files.read path :=
    Act.changeFiles_ends rfl fun fs hfs => ⟨hfs, Files.read_of_write_beside suffix_temporary hfs⟩
  refine .bind (.mapError (hwrite.meets.mono_error fun _ _ h => ⟨rfl, h⟩)) fun _ t ⟨ht, hread⟩ => ?_
  have hmove : (Act.changeFiles (·.rename (temporaryPath path) path)).Ends t
      (fun _ u => u.files.read path = .ok c.text ∧ u.files.working = s.files.working)
      fun u => u.files.read path = s.files.read path :=
    Act.changeFiles_ends hread fun fs hfs =>
      ⟨Files.read_of_rename ht hfs, (Files.rename_working hfs).trans (Files.write_working ht)⟩
  exact .bind (.mapError (hmove.meets.mono_error fun _ _ h => ⟨rfl, h⟩)) fun _ u hu => .note hu

theorem commit_file_meets (path : String) (c : Catalog) (s : Site) :
    (commit c (file path)).Meets s (fun _ t => t.files.read path = .ok c.text ∧ t.files.working = s.files.working)
      fun e t => e.isIo = true ∧ t.files.read path = s.files.read path := by
  refine .andFinally ((publish_file_meets path c s).mono_error fun e t ⟨he, ht⟩ => ?_)
  rw [StoreError.waits_eq_false he]
  exact ⟨he, ht⟩

/-- The text of a catalog is read back as the catalog, at any time and from any source. So is the file to which the
catalog has been committed, and its text is that of the catalog. -/
theorem document_read_back (c : Catalog) :
    (∀ now source, Catalog.ofText now source c.text = .ok c) ∧
    ∀ path s t, commit c (file path) s = .ok () t →
      t.files.read path = .ok c.text ∧ ∀ now, load now t.files path = .ok c := by
  refine ⟨fun now source => Catalog.ofText_text now source c, fun path s t h => ?_⟩
  have hmeets := commit_file_meets path c s
  rw [Act.Meets, h] at hmeets
  exact ⟨hmeets.1, load_of_text hmeets.1⟩

/-! ### An odd catalog -/

/-- A catalog of records that are hard to write: quotes, control characters and letters beyond ASCII, the greatest ids,
host bits in networks of both families, fields that are absent, and a time with a fraction. -/
def odd : Catalog where
  vrfs := [⟨Catalog.lastId, "red \"and\" \\ blue", none, false⟩, ⟨2, "\u0001\t\nü∞😀", some "65000:1", true⟩]
  prefixes := [⟨3, ⟨⟨.v6, 0x20010db8000000000000000000000001, by decide⟩, 64, by decide⟩, some 2, .container,
    ⟨some "", "", []⟩, Catalog.epoch⟩]
  ranges := [⟨4, ⟨⟨.v4, 0x0a000001, by decide⟩, 8, by decide⟩, ⟨⟨.v4, 0x0a0000ff, by decide⟩, 8, by decide⟩, none, .deprecated,
    .blank, Catalog.epoch⟩]
  addresses := [⟨5, ⟨⟨.v6, 1, by decide⟩, 0, by decide⟩, some 77, .slaac, "host.example", ⟨none, "\u007f", ["a", "", "b\"c"]⟩,
    { Catalog.epoch with nano := 500000000, nano_lt := by decide }⟩]
  nextId := Catalog.lastId

/-- A site without any files. -/
def nowhere : Site :=
  ⟨⟨[], []⟩, .empty, Catalog.epoch, []⟩

theorem document_read_back_odd : ∃ t, commit odd (file "ipam.json") nowhere = .ok () t ∧
    t.files.read "ipam.json" = .ok odd.text ∧ ∀ now, load now t.files "ipam.json" = .ok odd := by
  have hcommit : ∀ c, commit c (file "ipam.json") nowhere = .ok () ⟨⟨[(["ipam.json"], .text c.text)], []⟩, .empty,
      Catalog.epoch, [.committed "ipam.json", .gaveBack (.file ["ipam.json.lock"])]⟩ := fun _ => rfl
  exact ⟨_, hcommit odd, (document_read_back odd).2 "ipam.json" nowhere _ (hcommit odd)⟩

end Store

end AddressPlan
