import NetworkLabs.AddressTranslation.Table
import NetworkLabs.Library.CString

/-!
# The configuration file

`parse_config` in `nat.c` cuts every line at its colons, with one cursor for `strstrip` and
`strsep`. These two leave the strings where they are: a string that was taken before the
next cut ends at that cut. `strstrip` and `ipv4_to_int` are not part of the sources and are
passed in.

`none` stands for a null pointer that is followed, as the message about an interface does
when no interface has the name.
-/

namespace NetworkLabs

open CString

def MAX_LINE_LEN : ℕ := 100

/-- What is read of an interface when the translator is configured. -/
structure NamedIface extends IfaceInfo where
  name : List Char

/-- The functions that are declared nowhere. -/
structure ConfigLib where
  strstrip : List Char → Option ℕ → Option (List Char × Option ℕ)
  ipv4ToInt : List Char → UInt32

/-- What the file determines of the translator. -/
structure NatConfig where
  internalIface : Option NamedIface := none
  externalIface : Option NamedIface := none
  rules : List DnatRule := []
  assignedPorts : UInt16 → Bool := fun _ => false

def ifNameToIface (ifaceList : List NamedIface) (ifName : List Char) : Option NamedIface :=
  ifaceList.find? fun iface => iface.name == ifName

namespace NatConfig

def installRule (nat : NatConfig) (rule : DnatRule) : NatConfig :=
  { nat with
    rules := nat.rules ++ [rule]
    assignedPorts := Function.update nat.assignedPorts rule.externalPort true }

/-- The table that the translator starts with. -/
def table (nat : NatConfig) (externalIface : IfaceInfo) : NatTable where
  natMappingList := fun _ => []
  externalIface := externalIface
  assignedPorts := nat.assignedPorts
  rules := nat.rules

section

variable (lib : ConfigLib) (ifaceList : List NamedIface)

/-- The interface that is named behind the cursor. -/
def readIface (buf : List Char) (config : Option ℕ) : Option NamedIface := do
  let (buf, ifaceName) ← lib.strstrip buf config
  let ifaceName ← ifaceName
  ifNameToIface ifaceList (cstr buf ifaceName)

/-- The rule behind the cursor, if no part of it is missing. -/
def readRule (buf : List Char) (config : Option ℕ) : Option (Option DnatRule) := do
  let (buf, externalIpStr) ← lib.strstrip buf config
  let (buf, config, externalPortStr) := strsep buf config ':'
  let (buf, internalIpStr) ← lib.strstrip buf config
  let (buf, _, internalPortStr) := strsep buf config ':'
  match externalIpStr, externalPortStr, internalIpStr, internalPortStr with
  | some externalIpStr, some externalPortStr, some internalIpStr, some internalPortStr =>
      -- the strings are read after the last cut
      some (some {
        externalIp := lib.ipv4ToInt (cstr buf externalIpStr)
        externalPort := UInt16.ofInt (atoi (cstr buf externalPortStr))
        internalIp := lib.ipv4ToInt (cstr buf internalIpStr)
        internalPort := UInt16.ofInt (atoi (cstr buf internalPortStr)) })
  | _, _, _, _ => some none

/-- One round of the loop. -/
def parseLine (nat : NatConfig) (line : List Char) : Option NatConfig :=
  match strsep (line ++ [NUL]) (some 0) ':' with
  | (_, _, none) => some nat
  | (buf, config, some key) =>
      if cstr buf key = "internal-iface".toList then
        (readIface lib ifaceList buf config).map fun iface =>
          { nat with internalIface := some iface }
      else if cstr buf key = "external-iface".toList then
        (readIface lib ifaceList buf config).map fun iface =>
          { nat with externalIface := some iface }
      else if cstr buf key = "dnat-rules".toList then
        (readRule lib buf config).map fun rule => rule.elim nat nat.installRule
      else some nat

/-- The value that is returned, and the configuration afterwards; `none` for a file that
cannot be opened. -/
def parseConfig (file : Option (List Char)) (nat : NatConfig) : Option (ℤ × NatConfig) :=
  match file with
  | none => some (-1, nat)
  | some file =>
      -- one place of the buffer is for the NUL
      ((fgetsLines (MAX_LINE_LEN - 1) file).foldlM (parseLine lib ifaceList) nat).map fun nat =>
        (0, nat)

end

end NatConfig

/-! ## What any file leaves behind -/

namespace NatTable

theorem natInit_concat (externalIface : IfaceInfo) (rules : List DnatRule) (rule : DnatRule) :
    natInit externalIface (rules ++ [rule]) = (natInit externalIface rules).installRule rule := by
  rw [natInit, List.foldl_concat]
  rfl

/-- Initially the ports of the rules are assigned, and no others. -/
theorem assignedPorts_natInit_iff (externalIface : IfaceInfo) (rules : List DnatRule)
    (port : UInt16) :
    (natInit externalIface rules).assignedPorts port = true ↔
      ∃ rule ∈ rules, rule.externalPort = port := by
  induction rules using List.reverseRecOn with
  | nil => simp [natInit]
  | append_singleton rules rule ih =>
      rw [natInit_concat]
      simp only [installRule, Function.update_apply]
      split
      · next heq => exact iff_of_true rfl ⟨rule, by simp, heq.symm⟩
      · next hne => simp [ih, Ne.symm hne]

end NatTable

namespace NatConfig

variable {lib : ConfigLib} {ifaceList : List NamedIface} {nat nat' : NatConfig}

/-- What a line can do. -/
theorem parseLine_cases {line : List Char} (h : parseLine lib ifaceList nat line = some nat') :
    nat' = nat ∨ (∃ iface, nat' = { nat with internalIface := some iface }) ∨
      (∃ iface, nat' = { nat with externalIface := some iface }) ∨
        ∃ rule, nat' = nat.installRule rule := by
  rw [parseLine] at h
  split at h
  · exact Or.inl (Option.some.inj h).symm
  · split_ifs at h
    · obtain ⟨iface, -, hiface⟩ := Option.map_eq_some_iff.mp h
      exact Or.inr (Or.inl ⟨iface, hiface.symm⟩)
    · obtain ⟨iface, -, hiface⟩ := Option.map_eq_some_iff.mp h
      exact Or.inr (Or.inr (Or.inl ⟨iface, hiface.symm⟩))
    · obtain ⟨rule, -, hrule⟩ := Option.map_eq_some_iff.mp h
      cases rule with
      | none => exact Or.inl hrule.symm
      | some rule => exact Or.inr (Or.inr (Or.inr ⟨rule, hrule.symm⟩))
    · exact Or.inl (Option.some.inj h).symm

/-- The table of a configuration is the one that its rules give. -/
def Tabled (nat : NatConfig) : Prop :=
  ∀ externalIface, nat.table externalIface = NatTable.natInit externalIface nat.rules

theorem Tabled.parseLine {line : List Char} (h : nat.Tabled)
    (hline : parseLine lib ifaceList nat line = some nat') : nat'.Tabled := by
  rcases parseLine_cases hline with rfl | ⟨iface, rfl⟩ | ⟨iface, rfl⟩ | ⟨rule, rfl⟩
  · exact h
  · exact h
  · exact h
  · intro externalIface
    rw [installRule, NatTable.natInit_concat, ← h externalIface]
    rfl

/-- Whatever the file, the table starts with the rules that were read. -/
theorem tabled_parseConfig {file : List Char} {code : ℤ}
    (h : parseConfig lib ifaceList (some file) {} = some (code, nat)) : nat.Tabled := by
  obtain ⟨last, hlast, heq⟩ := Option.map_eq_some_iff.mp h
  obtain ⟨-, rfl⟩ := Prod.mk.inj heq
  have hstart : Tabled {} := fun _ => rfl
  revert hlast hstart
  generalize ({} : NatConfig) = start
  induction fgetsLines (MAX_LINE_LEN - 1) file generalizing start with
  | nil =>
      intro hlast hstart
      obtain rfl := Option.some.inj hlast
      exact hstart
  | cons line lines ih =>
      intro hlast hstart
      rw [List.foldlM_cons] at hlast
      obtain ⟨next, hnext, hrest⟩ := Option.bind_eq_some_iff.mp hlast
      exact ih next hrest (hstart.parseLine hnext)

end NatConfig

end NetworkLabs
