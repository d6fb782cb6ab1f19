import AddressPlan.Config.Basic
import AddressPlan.Decoder.Record

/-!
Reading a configuration. It is written in YAML, where every section and every setting may be missing; the same
form is understood as JSON.
-/

namespace AddressPlan

open Validator (Permissions)

namespace Decoder

def lockScope : Decoder LockScope :=
  choice ([.global, .parent].map fun s => (s.name, s))

def lockBackend : Decoder LockBackend :=
  choice ([.file, .inProcess].map fun b => (b.name, b))

def path : Decoder String :=
  text "path string"

def catalogPath : Decoder String :=
  record "CatalogConfig" Config.default.catalogPath [.optional "path" path fun v _ => v]

def locking : Decoder Locking :=
  record "LockingConfig" .default
    [.optional "backend" lockBackend fun v c => { c with backend := v },
      .optional "directory" path fun v c => { c with directory := v },
      .optional "scope" lockScope fun v c => { c with scope := v }]

def pagination : Decoder Pagination :=
  record "PaginationSettings" .default
    [.optional "paginate_count" count fun v c => { c with count := v },
      .optional "max_page_size" count fun v c => { c with most := v }]

def uniqueGlobally : Decoder Bool :=
  record "ValidationSettings" Config.default.uniqueGlobally [.optional "enforce_global_unique" bool fun v _ => v]

def permissions : Decoder Permissions :=
  record "PermissionConstraints" .all
    [.optional "tenants" (option (list string)) fun v c => { c with tenants := v },
      .optional "statuses" (option (list string)) fun v c => { c with statuses := v },
      .optional "vrfs" (option (list (option recordId))) fun v c => { c with vrfs := v }]

def config : Decoder Config :=
  record "Config" .default
    [.optional "log_level" (option string) fun v c => { c with logLevel := v },
      .optional "catalog" catalogPath fun v c => { c with catalogPath := v },
      .optional "locking" locking fun v c => { c with locking := v },
      .optional "pagination" pagination fun v c => { c with pagination := v },
      .optional "validation" uniqueGlobally fun v c => { c with uniqueGlobally := v },
      .optional "permissions" permissions fun v c => { c with permissions := v }]

end Decoder

/-! ### Writing -/

/-- A member that is there only if it says something. -/
def Json.stated (name : String) (f : α → Json) (v : Option α) : List (String × Json) :=
  match v with
  | some a => [(name, f a)]
  | none => []

def Validator.Permissions.toJson (p : Permissions) : Json :=
  .object (Json.stated "tenants" .strings p.tenants ++ Json.stated "statuses" .strings p.statuses ++
    Json.stated "vrfs" (fun vrfs => .array (vrfs.map .ofId)) p.vrfs)

namespace Config

def validationJson (c : Config) : Json :=
  .object [("enforce_global_unique", .bool c.uniqueGlobally)]

def toJson (c : Config) : Json :=
  .object (Json.stated "log_level" .string c.logLevel ++
    [("catalog", .object [("path", .string c.catalogPath)]),
      ("locking", .object [("backend", .string c.locking.backend.name),
        ("directory", .string c.locking.directory), ("scope", .string c.locking.scope.name)]),
      ("pagination", .object [("paginate_count", .nat c.pagination.count),
        ("max_page_size", .nat c.pagination.most)]),
      ("validation", c.validationJson),
      ("permissions", c.permissions.toJson)])

end Config

end AddressPlan
