/-!
# Versions

The two versions in which a root signature can be described.
-/

namespace RootSignature

/-- A version of the description of a root signature. -/
inductive Version where
  /-- Version 1.0, which knows no flags on descriptors and ranges. -/
  | v1_0
  /-- Version 1.1, in which descriptors and ranges carry flags. -/
  | v1_1
deriving DecidableEq

namespace Version

/-- The newest version. -/
def latest : Version := v1_1

instance : Inhabited Version := ⟨latest⟩

instance : ToString Version where
  toString
    | v1_0 => "root_sig_1_0"
    | v1_1 => "root_sig_1_1"

end Version

end RootSignature
