import MeOS.Fat

/-! # `FAT32_fs.cpp`: attributes and 8.3 names

Strings are the bytes in front of the NUL. `char` is signed: bytes from `0x80`
on are negative.
-/

namespace MeOS

open Bytes

/-! ## Attributes -/

/-- `VFS_FILE`. -/
abbrev vfsFile : Nat := 1

/-- `VFS_DIRECTORY`. -/
abbrev vfsDirectory : Nat := 2

/-- `VFS_LINK`. -/
abbrev vfsLink : Nat := 3

/-- `VFS_READ`. -/
abbrev vfsRead : Nat := 8

/-- `VFS_WRITE`. -/
abbrev vfsWrite : Nat := 16

/-- `VFS_HIDDEN`. -/
abbrev vfsHidden : Nat := 32

/-- `FAT_READ_ONLY`. -/
abbrev fatReadOnly : Nat := 1

/-- `FAT_HIDDEN`. -/
abbrev fatHidden : Nat := 2

/-- `FAT_VOLUME_ID`. -/
abbrev fatVolumeId : Nat := 8

/-- `FAT_DIRECTORY`. -/
abbrev fatDirectory : Nat := 16

/-- `fat_to_vfs_attributes`. -/
def fatToVfsAttributes (fatAttrs : Nat) : Nat :=
  let attrs := vfsRead
  let attrs := if fatAttrs &&& fatReadOnly ≠ fatReadOnly then attrs ||| vfsWrite else attrs
  let attrs := if fatAttrs &&& fatHidden = fatHidden then attrs ||| vfsHidden else attrs
  if fatAttrs &&& fatDirectory = fatDirectory then attrs ||| vfsDirectory else attrs ||| vfsFile

/-- `vfs_to_fat_attributes`. -/
def vfsToFatAttributes (vfsAttrs : Nat) : Nat :=
  let kind := vfsAttrs &&& 7
  let attrs := if kind = vfsDirectory ∨ kind = vfsLink then fatDirectory else 0
  let attrs := if vfsAttrs &&& vfsWrite ≠ vfsWrite then attrs ||| fatReadOnly else attrs
  if vfsAttrs &&& vfsHidden = vfsHidden then attrs ||| fatHidden else attrs

/-! ## Names -/

/-- The space of padded names. -/
abbrev space : UInt8 := 32

/-- The dot between name and extension. -/
abbrev dot : UInt8 := 46

/-- `fat_fs_retrieve_short_name` of the 11 name bytes of an entry. -/
def fatFsRetrieveShortName (name : List UInt8) : List UInt8 :=
  let base := (name.take 8).filter (· ≠ space)
  let extension := ((name.drop 8).take 3).filter (· ≠ space)
  -- with an empty extension the dot is taken back
  let text := if extension = [] then base else base ++ dot :: extension
  text.takeWhile (· ≠ 0)

/-- `name` in a field of `n` spaces. -/
def padded (n : Nat) (name : List UInt8) : List UInt8 :=
  name ++ List.replicate (n - name.length) space

/-- `fat_fs_generate_short_name`: the 11 bytes, or nothing for a name that is
too long. Only a dot behind the first and among the first 8 characters starts
an extension. -/
def fatFsGenerateShortName (name : List UInt8) : Option (List UInt8) :=
  if name.length > 12 then none
  else
    let base := (name.take 8).takeWhile (· ≠ dot)
    if base = name.take 8 ∨ base = [] then some (padded 11 base)
    else
      let extension := (name.drop (base.length + 1)).take 3
      some (padded 8 base ++ padded 3 extension)

/-- The characters `fat_fs_validate_83_name` refuses. -/
def badValues : List UInt8 :=
  [0x22, 0x2A, 0x2B, 0x2C, 0x2F, 0x3A, 0x3B, 0x3C, 0x3D, 0x3E, 0x3F, 0x5B, 0x5C, 0x5D, 0x7C]

/-- A `char` below `0x20`. -/
def belowSpace (c : UInt8) : Bool := c.toNat < 32 || 128 ≤ c.toNat

/-- `fat_fs_validate_83_name`. The table has 15 values and is compared up to a
sixteenth; `behind` is what lies there. -/
def fatFsValidate83Name (behind : UInt8) (name : List UInt8) : Bool :=
  if name.length > 11 then false
  else
    name.zipIdx.all fun ci =>
      let c := ci.1
      !(ci.2 != 0 && belowSpace c) && !(ci.2 == 0 && belowSpace c && c != 5) &&
        !(badValues ++ [behind]).contains c

end MeOS
