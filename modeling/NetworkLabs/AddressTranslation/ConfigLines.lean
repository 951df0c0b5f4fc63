import NetworkLabs.AddressTranslation.Config

/-!
# Reading a configuration back

A configuration file is written line by line and read by `parse_config`. The cursor that
follows the key of a rule is moved by `strsep` only: the first piece that it cuts is the
external address, and what is read as the external port is the first octet of that address.
The second piece, from the external port to the internal address, is read as the internal
address and as the internal port.
-/

namespace NetworkLabs

open CString

/-- The octets of an address, from the first. -/
def octets (ip : UInt32) : List ℕ :=
  [ip.toNat / 2 ^ 24, ip.toNat / 2 ^ 16 % 256, ip.toNat / 2 ^ 8 % 256, ip.toNat % 256]

def dottedQuad (ip : UInt32) : List Char :=
  ['.'].intercalate ((octets ip).map (Nat.toDigits 10))

namespace DnatRule

/-- What a line has between its colons behind the key. -/
def betweenColons (rule : DnatRule) : List Char :=
  Nat.toDigits 10 rule.externalPort.toNat ++ " -> ".toList ++ dottedQuad rule.internalIp

/-- The rule as it is written. -/
def text (rule : DnatRule) : List Char :=
  dottedQuad rule.externalIp ++ ':' :: (rule.betweenColons ++
    ':' :: Nat.toDigits 10 rule.internalPort.toNat)

end DnatRule

/-- A name that an interface can have. -/
structure IfName where
  text : List Char
  ne_nil : text ≠ []
  short : text.length < 16
  no_nul : NUL ∉ text
  no_space : ∀ c ∈ text, isspace c = false

theorem IfName.stripped (name : IfName) : Stripped name.text where
  no_nul := name.no_nul
  ne_nil := name.ne_nil
  head := fun c hc => name.no_space c (List.mem_of_mem_head? hc)
  last := fun c hc => name.no_space c (List.mem_of_mem_getLast? hc)

/-- The lines of a file, without the newlines that separate them. -/
inductive ConfigLine where
  | internalIface (name : IfName)
  | externalIface (name : IfName)
  | blank (spaces : { l : List Char // ∀ c ∈ l, isspace c = true ∧ c ≠ '\n' })
  | dnatRule (rule : DnatRule)

namespace ConfigLine

def keyed (key : String) (value : List Char) : List Char :=
  key.toList ++ ':' :: ' ' :: value

def text : ConfigLine → List Char
  | internalIface name => keyed "internal-iface" name.text
  | externalIface name => keyed "external-iface" name.text
  | blank spaces => spaces.1
  | dnatRule rule => keyed "dnat-rules" rule.text

def rule? : ConfigLine → Option DnatRule
  | dnatRule rule => some rule
  | _ => none

/-- An interface that the line names is there. -/
def NamesIface (ifaceList : List NamedIface) : ConfigLine → Prop
  | internalIface name => ∃ iface ∈ ifaceList, iface.name = name.text
  | externalIface name => ∃ iface ∈ ifaceList, iface.name = name.text
  | _ => True

end ConfigLine

/-- The file with these lines. It ends in a newline if its last line is empty. -/
def configFile (lines : List ConfigLine) : List Char :=
  ['\n'].intercalate (lines.map ConfigLine.text)

def rulesOf (lines : List ConfigLine) : List DnatRule := lines.filterMap ConfigLine.rule?

namespace ConfigLib

/-- `strstrip` trims in place. -/
def Trims (lib : ConfigLib) : Prop :=
  ∀ front pad text pad' rest : List Char, (∀ c ∈ pad, isspace c = true) →
    (∀ c ∈ pad', isspace c = true) → Stripped text →
    ∃ rest', lib.strstrip (front ++ (pad ++ text ++ pad') ++ NUL :: rest) (some front.length) =
      some (front ++ (pad ++ text) ++ NUL :: rest', some (front.length + pad.length))

/-- `ipv4_to_int` reads every dotted quad. -/
def ReadsQuads (lib : ConfigLib) : Prop := ∀ ip, lib.ipv4ToInt (dottedQuad ip) = ip

/-- The rule that is installed for a line. -/
def readAs (lib : ConfigLib) (rule : DnatRule) : DnatRule where
  externalIp := rule.externalIp
  externalPort := UInt16.ofNat (rule.externalIp.toNat / 2 ^ 24)
  internalIp := lib.ipv4ToInt rule.betweenColons
  internalPort := rule.externalPort

/-- The first octet of the external address is the external port, and the piece between the
colons reads as the internal address and as the internal port. -/
structure ReadsBack (lib : ConfigLib) (rule : DnatRule) : Prop where
  externalPort : rule.externalPort.toNat = rule.externalIp.toNat / 2 ^ 24
  internalIp : lib.ipv4ToInt rule.betweenColons = rule.internalIp
  internalPort : rule.internalPort = rule.externalPort

theorem readAs_eq_iff (lib : ConfigLib) (rule : DnatRule) :
    lib.readAs rule = rule ↔ lib.ReadsBack rule := by
  have hoctet : rule.externalIp.toNat / 2 ^ 24 < 2 ^ 16 := by
    have := rule.externalIp.toNat_lt
    omega
  have hport : UInt16.ofNat (rule.externalIp.toNat / 2 ^ 24) = rule.externalPort ↔
      rule.externalPort.toNat = rule.externalIp.toNat / 2 ^ 24 := by
    rw [← UInt16.toNat_inj, UInt16.toNat_ofNat_of_lt' hoctet, eq_comm]
  constructor
  · intro h
    exact {
      externalPort := hport.mp (congrArg DnatRule.externalPort h)
      internalIp := congrArg DnatRule.internalIp h
      internalPort := (congrArg DnatRule.internalPort h).symm }
  · intro h
    obtain ⟨externalIp, externalPort, internalIp, internalPort⟩ := rule
    rw [readAs, DnatRule.mk.injEq]
    exact ⟨rfl, hport.mpr h.externalPort, h.internalIp, h.internalPort.symm⟩

end ConfigLib

/-! ## The characters of a line -/

section

variable {c : Char} {ip : UInt32} {n : ℕ} {rule : DnatRule}

theorem not_mem_toDigits (hc : c.isDigit = false) : c ∉ Nat.toDigits 10 n := by
  intro hmem
  rw [isDigit_of_mem hmem] at hc
  exact Bool.noConfusion hc

theorem dottedQuad_eq (ip : UInt32) :
    dottedQuad ip = Nat.toDigits 10 (ip.toNat / 2 ^ 24) ++
      '.' :: (Nat.toDigits 10 (ip.toNat / 2 ^ 16 % 256) ++
        '.' :: (Nat.toDigits 10 (ip.toNat / 2 ^ 8 % 256) ++
          '.' :: Nat.toDigits 10 (ip.toNat % 256))) := by
  simp [dottedQuad, octets, List.intercalate_cons_cons]

theorem not_mem_dottedQuad (hc : c.isDigit = false) (hdot : c ≠ '.') : c ∉ dottedQuad ip := by
  simp [dottedQuad_eq, not_mem_toDigits hc, hdot]

theorem not_mem_betweenColons (hc : c.isDigit = false) (hdot : c ≠ '.')
    (harrow : c ∉ " -> ".toList) : c ∉ rule.betweenColons := by
  simp only [DnatRule.betweenColons, List.mem_append, not_or]
  exact ⟨⟨not_mem_toDigits hc, harrow⟩, not_mem_dottedQuad hc hdot⟩

theorem not_mem_text (hc : c.isDigit = false) (hdot : c ≠ '.') (harrow : c ∉ " -> ".toList)
    (hcolon : c ≠ ':') : c ∉ rule.text := by
  simp only [DnatRule.text, List.mem_append, List.mem_cons, not_or]
  exact ⟨not_mem_dottedQuad hc hdot, hcolon, not_mem_betweenColons hc hdot harrow, hcolon,
    not_mem_toDigits hc⟩

/-- A text between two numbers has no white space at its ends. -/
theorem stripped_digits {mid : List Char} {m : ℕ} (hmid : NUL ∉ mid) :
    Stripped (Nat.toDigits 10 n ++ mid ++ Nat.toDigits 10 m) := by
  refine Stripped.of_append Nat.toDigits_ne_nil Nat.toDigits_ne_nil ?_ ?_
  · intro c hc
    apply isspace_of_isDigit
    rcases List.mem_append.mp hc with h | h
    · exact isDigit_of_mem h
    · exact isDigit_of_mem h
  · simp only [List.mem_append, not_or]
    exact ⟨⟨not_mem_toDigits rfl, hmid⟩, not_mem_toDigits rfl⟩

theorem stripped_rest (rule : DnatRule) :
    Stripped (rule.betweenColons ++ ':' :: Nat.toDigits 10 rule.internalPort.toNat) := by
  have hmid : NUL ∉ " -> ".toList ++ dottedQuad rule.internalIp ++ [':'] := by
    simp only [List.mem_append, List.mem_singleton, not_or]
    exact ⟨⟨by decide, not_mem_dottedQuad rfl (by decide)⟩, by decide⟩
  simpa [DnatRule.betweenColons] using stripped_digits hmid

theorem stripped_text (rule : DnatRule) : Stripped rule.text := by
  have hmid : NUL ∉ '.' :: (Nat.toDigits 10 (rule.externalIp.toNat / 2 ^ 16 % 256) ++
      '.' :: (Nat.toDigits 10 (rule.externalIp.toNat / 2 ^ 8 % 256) ++
        '.' :: (Nat.toDigits 10 (rule.externalIp.toNat % 256) ++
          ':' :: (rule.betweenColons ++ [':'])))) := by
    simp only [List.mem_append, List.mem_cons, List.not_mem_nil, or_false, not_or]
    exact ⟨by decide, not_mem_toDigits rfl, by decide, not_mem_toDigits rfl, by decide,
      not_mem_toDigits rfl, by decide, not_mem_betweenColons rfl (by decide) (by decide),
      by decide⟩
  simpa [DnatRule.text, dottedQuad_eq] using stripped_digits hmid

theorem length_toDigits_le {k : ℕ} (hk : 0 < k) (hn : n < 10 ^ k) :
    (Nat.toDigits 10 n).length ≤ k :=
  (Nat.length_toDigits_le_iff (by decide) hk).mpr hn

theorem length_dottedQuad_le (ip : UInt32) : (dottedQuad ip).length ≤ 15 := by
  have hlt := ip.toNat_lt
  have h3 : ∀ n < 256, (Nat.toDigits 10 n).length ≤ 3 :=
    fun n hn => length_toDigits_le (by decide) (by omega)
  have h₁ := h3 (ip.toNat / 2 ^ 24) (by omega)
  have h₂ := h3 (ip.toNat / 2 ^ 16 % 256) (by omega)
  have h₃ := h3 (ip.toNat / 2 ^ 8 % 256) (by omega)
  have h₄ := h3 (ip.toNat % 256) (by omega)
  simp only [dottedQuad_eq, List.length_append, List.length_cons]
  omega

theorem length_port_le (port : UInt16) : (Nat.toDigits 10 port.toNat).length ≤ 5 :=
  length_toDigits_le (by decide) (port.toNat_lt.trans (by decide))

theorem DnatRule.length_text_le (rule : DnatRule) : rule.text.length ≤ 46 := by
  have h₁ := length_dottedQuad_le rule.externalIp
  have h₂ := length_port_le rule.externalPort
  have h₃ := length_dottedQuad_le rule.internalIp
  have h₄ := length_port_le rule.internalPort
  have harrow : " -> ".toList.length = 4 := rfl
  simp only [text, betweenColons, List.length_append, List.length_cons]
  omega

end

namespace ConfigLine

theorem not_mem_keyed {key : String} {value : List Char} {c : Char} (hkey : c ∉ key.toList)
    (hvalue : c ∉ value) (hcolon : c ≠ ':') (hspace : c ≠ ' ') : c ∉ keyed key value := by
  simp only [keyed, List.mem_append, List.mem_cons, not_or]
  exact ⟨hkey, hcolon, hspace, hvalue⟩

theorem newline_not_mem (line : ConfigLine) : '\n' ∉ line.text := by
  have hname : ∀ name : IfName, '\n' ∉ name.text := by
    intro name h
    exact absurd (name.no_space _ h) (by decide)
  cases line with
  | internalIface name =>
      exact not_mem_keyed (by decide) (hname name) (by decide) (by decide)
  | externalIface name =>
      exact not_mem_keyed (by decide) (hname name) (by decide) (by decide)
  | blank spaces => exact fun h => (spaces.2 _ h).2 rfl
  | dnatRule rule =>
      exact not_mem_keyed (by decide) (not_mem_text rfl (by decide) (by decide) (by decide))
        (by decide) (by decide)

/-- A line is blank, or it is not empty and fits into the buffer. -/
theorem blank_or_fits (line : ConfigLine) :
    (∀ c ∈ line.text, isspace c = true) ∨
      line.text ≠ [] ∧ line.text.length < MAX_LINE_LEN - 1 := by
  have hkeyed : ∀ (key : String) (value : List Char), key.toList.length < 20 →
      value.length < 50 → keyed key value ≠ [] ∧
        (keyed key value).length < MAX_LINE_LEN - 1 := by
    intro key value hkey hvalue
    refine ⟨by simp [keyed], ?_⟩
    simp only [keyed, MAX_LINE_LEN, List.length_append, List.length_cons]
    omega
  cases line with
  | internalIface name =>
      exact Or.inr (hkeyed _ _ (by decide) (name.short.trans (by decide)))
  | externalIface name =>
      exact Or.inr (hkeyed _ _ (by decide) (name.short.trans (by decide)))
  | blank spaces => exact Or.inl fun c hc => (spaces.2 c hc).1
  | dnatRule rule =>
      exact Or.inr (hkeyed _ _ (by decide) (rule.length_text_le.trans_lt (by decide)))

end ConfigLine

/-! ## One line -/

theorem ofInt_natCast (n : ℕ) : UInt16.ofInt n = UInt16.ofNat n := by
  rw [UInt16.ofInt, ← UInt16.toNat_inj, UInt16.toNat_ofNat', UInt16.toNat_ofNat']
  omega

namespace NatConfig

variable {lib : ConfigLib} {ifaceList : List NamedIface} {nat : NatConfig}

/-- The string behind the cursor is trimmed, which leaves the cursor where it is, and then
cut at its first colon. -/
theorem trim_cut (htrims : lib.Trims) (front tail : List Char) {pad token rest pad' : List Char}
    (hpad : ∀ c ∈ pad, isspace c = true) (hpad' : ∀ c ∈ pad', isspace c = true)
    (htoken : ':' ∉ token) (htext : Stripped (token ++ ':' :: rest)) :
    ∃ buf tail', lib.strstrip (front ++ (pad ++ (token ++ ':' :: rest) ++ pad') ++ NUL :: tail)
        (some front.length) = some (buf, some (front.length + pad.length)) ∧
      strsep buf (some front.length) ':' =
        (front ++ (pad ++ token) ++ NUL :: (rest ++ NUL :: tail'),
          some (front.length + (pad ++ token).length + 1), some front.length) := by
  obtain ⟨tail', htrim⟩ := htrims front pad _ pad' tail hpad hpad' htext
  refine ⟨_, tail', htrim, ?_⟩
  have hshape : front ++ (pad ++ (token ++ ':' :: rest)) ++ NUL :: tail' =
      front ++ (pad ++ token) ++ ':' :: (rest ++ NUL :: tail') := by
    simp
  have hnul : NUL ∉ pad ++ token := by
    rw [List.mem_append, not_or]
    exact ⟨nul_not_mem hpad, fun h => htext.no_nul (List.mem_append_left _ h)⟩
  have hcolon : ':' ∉ pad ++ token := by
    rw [List.mem_append, not_or]
    exact ⟨fun h => absurd (hpad _ h) (by decide), htoken⟩
  rw [hshape]
  exact strsep_cut front hnul hcolon (by decide)

/-- The four strings of a rule: the first is cut out of the text behind the cursor, which is
the second, and the third and the fourth are the piece between the next two colons. -/
theorem readRule_fields (htrims : lib.Trims) (front : List Char)
    {external between port pad' : List Char} (hpad' : ∀ c ∈ pad', isspace c = true)
    (hexternal : ':' ∉ external) (hbetween : ':' ∉ between)
    (hall : Stripped (external ++ ':' :: (between ++ ':' :: port)))
    (hrest : Stripped (between ++ ':' :: port)) :
    readRule lib (front ++ ' ' :: (external ++ ':' :: (between ++ ':' :: port)) ++
        pad' ++ [NUL]) (some front.length) =
      some (some {
        externalIp := lib.ipv4ToInt external
        externalPort := UInt16.ofInt (atoi (' ' :: external))
        internalIp := lib.ipv4ToInt between
        internalPort := UInt16.ofInt (atoi between) }) := by
  have hexternalNul : NUL ∉ external := fun h => hall.no_nul (List.mem_append_left _ h)
  have hbetweenNul : NUL ∉ between := fun h => hrest.no_nul (List.mem_append_left _ h)
  have hcutNul : NUL ∉ [' '] ++ external := by
    rw [List.singleton_append, List.mem_cons, not_or]
    exact ⟨by decide, hexternalNul⟩
  have hspace : ∀ c ∈ [' '], isspace c = true := by simp [isspace]
  have hnone : ∀ c ∈ ([] : List Char), isspace c = true := fun c hc => absurd hc List.not_mem_nil
  obtain ⟨buf₁, tail₁, htrim₁, hcut₁⟩ := trim_cut htrims front [] hspace hpad' hexternal hall
  obtain ⟨buf₂, tail₂, htrim₂, hcut₂⟩ :=
    trim_cut htrims (front ++ ([' '] ++ external) ++ [NUL]) tail₁ hnone hnone hbetween hrest
  -- the second string stands where the first cut has left the cursor
  have hlength : (front ++ ([' '] ++ external) ++ [NUL]).length =
      front.length + ([' '] ++ external).length + 1 := by
    rw [List.length_append, List.length_append, List.length_singleton]
  have hbuf : front ++ ([' '] ++ external) ++ [NUL] ++ ([] ++ (between ++ ':' :: port) ++ []) ++
      NUL :: tail₁ =
        front ++ ([' '] ++ external) ++ NUL :: (between ++ ':' :: port ++ NUL :: tail₁) := by
    simp
  rw [hbuf, hlength] at htrim₂
  rw [hlength] at hcut₂
  have hfirst : cstr (front ++ ([' '] ++ external) ++ [NUL] ++ ([] ++ between) ++
      NUL :: (port ++ NUL :: tail₂)) (front.length + [' '].length) = external := by
    simpa using cstr_append (front ++ [' ']) hexternalNul
  have hsecond : cstr (front ++ ([' '] ++ external) ++ [NUL] ++ ([] ++ between) ++
      NUL :: (port ++ NUL :: tail₂)) front.length = [' '] ++ external := by
    simpa using cstr_append front hcutNul
  have hthird : cstr (front ++ ([' '] ++ external) ++ [NUL] ++ ([] ++ between) ++
      NUL :: (port ++ NUL :: tail₂)) (front.length + ([' '] ++ external).length + 1) =
        between := by
    rw [← hlength, List.nil_append]
    exact cstr_append _ hbetweenNul
  have hstart : front ++ ' ' :: (external ++ ':' :: (between ++ ':' :: port)) ++ pad' ++ [NUL] =
      front ++ ([' '] ++ (external ++ ':' :: (between ++ ':' :: port)) ++ pad') ++ [NUL] := by
    simp
  rw [readRule, hstart, htrim₁]
  simp only [Option.bind_eq_bind, Option.bind_some, hcut₁, htrim₂, hcut₂, hfirst, hsecond,
    List.length_nil, Nat.add_zero, hthird]
  rfl

theorem readIface_name (htrims : lib.Trims) (key : List Char) {name pad' : List Char}
    (hpad' : ∀ c ∈ pad', isspace c = true) (hname : Stripped name) :
    readIface lib ifaceList (key ++ [NUL] ++ (' ' :: name ++ pad') ++ [NUL])
      (some (key.length + 1)) = ifNameToIface ifaceList name := by
  have hspace : ∀ c ∈ [' '], isspace c = true := by simp [isspace]
  obtain ⟨rest, htrim⟩ : ∃ rest, lib.strstrip
      (key ++ [NUL] ++ (' ' :: name ++ pad') ++ [NUL]) (some (key.length + 1)) =
        some (key ++ [NUL] ++ [' '] ++ name ++ NUL :: rest, some (key.length + 2)) := by
    simpa using htrims (key ++ [NUL]) [' '] name pad' [] hspace hpad' hname
  have hstring : cstr (key ++ [NUL] ++ [' '] ++ name ++ NUL :: rest) (key.length + 2) = name := by
    simpa using cstr_append (key ++ [NUL] ++ [' ']) hname.no_nul
  rw [readIface, htrim]
  simp only [Option.bind_eq_bind, Option.bind_some, hstring]

/-- A line with a colon is read by its key. -/
theorem parseLine_key {key rest : List Char} (hnul : NUL ∉ key) (hcolon : ':' ∉ key) :
    parseLine lib ifaceList nat (key ++ ':' :: rest) =
      if key = "internal-iface".toList then
        (readIface lib ifaceList (key ++ [NUL] ++ rest ++ [NUL]) (some (key.length + 1))).map
          fun iface => { nat with internalIface := some iface }
      else if key = "external-iface".toList then
        (readIface lib ifaceList (key ++ [NUL] ++ rest ++ [NUL]) (some (key.length + 1))).map
          fun iface => { nat with externalIface := some iface }
      else if key = "dnat-rules".toList then
        (readRule lib (key ++ [NUL] ++ rest ++ [NUL]) (some (key.length + 1))).map
          fun rule => rule.elim nat nat.installRule
      else some nat := by
  have hcut : strsep (key ++ ':' :: rest ++ [NUL]) (some 0) ':' =
      (key ++ [NUL] ++ rest ++ [NUL], some (key.length + 1), some 0) := by
    simpa using strsep_cut [] hnul hcolon (by decide)
  have hstring : cstr (key ++ [NUL] ++ rest ++ [NUL]) 0 = key := by
    simpa using cstr_append [] hnul
  simp only [parseLine, hcut, hstring]

/-- A piece of a blank line changes nothing. -/
theorem parseLine_blank {piece : List Char} (hblank : ∀ c ∈ piece, isspace c = true) :
    parseLine lib ifaceList nat piece = some nat := by
  have hnul := nul_not_mem hblank
  have hcolon : ':' ∉ piece := fun h => absurd (hblank _ h) (by decide)
  have hlast : strsep (piece ++ [NUL]) (some 0) ':' = (piece ++ [NUL], none, some 0) := by
    simpa using strsep_last [] hnul hcolon
  have hstring : cstr (piece ++ [NUL]) 0 = piece := by
    simpa using cstr_append [] hnul
  have hne : ∀ key, (∃ c ∈ key, isspace c = false) → piece ≠ key := by
    rintro key ⟨c, hmem, hc⟩ rfl
    rw [hblank c hmem] at hc
    exact Bool.noConfusion hc
  simp only [parseLine, hlast, hstring]
  rw [if_neg (hne _ ⟨'i', by decide, by decide⟩), if_neg (hne _ ⟨'e', by decide, by decide⟩),
    if_neg (hne _ ⟨'d', by decide, by decide⟩)]

theorem readRule_text (htrims : lib.Trims) (hquads : lib.ReadsQuads) (key : List Char)
    {pad' : List Char} (hpad' : ∀ c ∈ pad', isspace c = true) (rule : DnatRule) :
    readRule lib (key ++ [NUL] ++ (' ' :: rule.text ++ pad') ++ [NUL]) (some (key.length + 1)) =
      some (some (lib.readAs rule)) := by
  have hexternal : ':' ∉ dottedQuad rule.externalIp := not_mem_dottedQuad rfl (by decide)
  have hbetween : ':' ∉ rule.betweenColons := not_mem_betweenColons rfl (by decide) (by decide)
  have hoctet : atoi (' ' :: dottedQuad rule.externalIp) =
      (rule.externalIp.toNat / 2 ^ 24 : ℕ) := by
    have hlt := rule.externalIp.toNat_lt
    rw [dottedQuad_eq]
    exact atoi_toDigits [' '] _ (by simp [isspace]) (by simp) (by omega)
  have hport : atoi rule.betweenColons = rule.externalPort.toNat := by
    have hlt := rule.externalPort.toNat_lt
    rw [DnatRule.betweenColons, List.append_assoc]
    exact atoi_toDigits [] _ (by simp) (by simp) (by omega)
  have hfields := readRule_fields htrims (key ++ [NUL]) hpad' hexternal hbetween
    (stripped_text rule) (stripped_rest rule)
  rw [hquads, hoctet, hport, ofInt_natCast, ofInt_natCast, UInt16.ofNat_toNat,
    List.length_append, List.length_singleton] at hfields
  simpa [DnatRule.text, ConfigLib.readAs] using hfields

/-- What a line does to the configuration. -/
def installLine (lib : ConfigLib) (ifaceList : List NamedIface) (nat : NatConfig) :
    ConfigLine → Option NatConfig
  | .internalIface name =>
      (ifNameToIface ifaceList name.text).map fun iface =>
        { nat with internalIface := some iface }
  | .externalIface name =>
      (ifNameToIface ifaceList name.text).map fun iface =>
        { nat with externalIface := some iface }
  | .blank _ => some nat
  | .dnatRule rule => some (nat.installRule (lib.readAs rule))

/-- Every line is read, with or without its newline. -/
theorem parseLine_text (htrims : lib.Trims) (hquads : lib.ReadsQuads) {pad' : List Char}
    (hpad' : ∀ c ∈ pad', isspace c = true) (nat : NatConfig) (line : ConfigLine) :
    parseLine lib ifaceList nat (line.text ++ pad') = installLine lib ifaceList nat line := by
  have hshape : ∀ (key : String) (value : List Char), ConfigLine.keyed key value ++ pad' =
      key.toList ++ ':' :: (' ' :: value ++ pad') := by
    intro key value
    rw [ConfigLine.keyed, List.append_assoc, List.cons_append]
  cases line with
  | internalIface name =>
      rw [ConfigLine.text, hshape, parseLine_key (by decide) (by decide), if_pos rfl,
        readIface_name htrims _ hpad' name.stripped]
      rfl
  | externalIface name =>
      rw [ConfigLine.text, hshape, parseLine_key (by decide) (by decide), if_neg (by decide),
        if_pos rfl, readIface_name htrims _ hpad' name.stripped]
      rfl
  | blank spaces =>
      apply parseLine_blank
      intro c hc
      rcases List.mem_append.mp hc with h | h
      · exact (spaces.2 c h).1
      · exact hpad' c h
  | dnatRule rule =>
      rw [ConfigLine.text, hshape, parseLine_key (by decide) (by decide), if_neg (by decide),
        if_neg (by decide), if_pos rfl,
        readRule_text htrims hquads _ hpad']
      rfl

/-! ## The whole file -/

theorem foldlM_blank {pieces : List (List Char)}
    (hblank : ∀ c ∈ pieces.flatten, isspace c = true) :
    pieces.foldlM (parseLine lib ifaceList) nat = some nat := by
  induction pieces with
  | nil => rfl
  | cons piece pieces ih =>
      rw [List.flatten_cons] at hblank
      rw [List.foldlM_cons, parseLine_blank fun c hc => hblank c (List.mem_append_left _ hc)]
      exact ih fun c hc => hblank c (List.mem_append_right _ hc)

/-- The line in front of a file is read as what it is, in as many pieces as it takes. -/
theorem foldlM_line (htrims : lib.Trims) (hquads : lib.ReadsQuads) (nat : NatConfig)
    (line : ConfigLine) (rest : List Char) :
    (fgetsLines (MAX_LINE_LEN - 1) (line.text ++ '\n' :: rest)).foldlM
        (parseLine lib ifaceList) nat =
      (installLine lib ifaceList nat line).bind
        ((fgetsLines (MAX_LINE_LEN - 1) rest).foldlM (parseLine lib ifaceList)) := by
  have hnewline : ∀ c ∈ ['\n'], isspace c = true := by simp [isspace]
  rcases line.blank_or_fits with hblank | ⟨-, hfits⟩
  · obtain ⟨pieces, hflatten, hread⟩ :
        ∃ pieces : List (List Char), pieces.flatten = line.text ++ ['\n'] ∧
          fgetsLines (MAX_LINE_LEN - 1) (line.text ++ '\n' :: rest) =
            pieces ++ fgetsLines (MAX_LINE_LEN - 1) rest :=
      fgetsLines_pieces (by decide) line.newline_not_mem
    have hspace : ∀ c ∈ pieces.flatten, isspace c = true := by
      intro c hc
      rw [hflatten] at hc
      rcases List.mem_append.mp hc with h | h
      · exact hblank c h
      · exact hnewline c h
    rw [hread, List.foldlM_append, foldlM_blank hspace, ← parseLine_text htrims hquads hnewline,
      parseLine_blank]
    · rfl
    · rwa [← hflatten]
  · rw [fgetsLines_line line.newline_not_mem hfits, List.foldlM_cons,
      parseLine_text htrims hquads hnewline]
    rfl

/-- The last line needs no newline. -/
theorem foldlM_last (htrims : lib.Trims) (hquads : lib.ReadsQuads) (nat : NatConfig)
    (line : ConfigLine) :
    (fgetsLines (MAX_LINE_LEN - 1) line.text).foldlM (parseLine lib ifaceList) nat =
      installLine lib ifaceList nat line := by
  rw [← parseLine_text htrims hquads (fun c hc => absurd hc List.not_mem_nil) nat line,
    List.append_nil]
  rcases line.blank_or_fits with hblank | ⟨hne, hfits⟩
  · rw [parseLine_blank hblank, foldlM_blank]
    rwa [flatten_fgetsLines (by decide)]
  · rw [fgetsLines_end line.newline_not_mem hne hfits.le, List.foldlM_cons]
    exact bind_pure _

theorem parseConfig_lines (htrims : lib.Trims) (hquads : lib.ReadsQuads) (nat : NatConfig)
    (lines : List ConfigLine) :
    parseConfig lib ifaceList (some (configFile lines)) nat =
      (lines.foldlM (installLine lib ifaceList) nat).map fun nat => (0, nat) := by
  rw [parseConfig]
  congr 1
  induction lines generalizing nat with
  | nil => rfl
  | cons line lines ih =>
      cases lines with
      | nil =>
          rw [configFile, List.map_singleton, List.intercalate_singleton,
            foldlM_last htrims hquads, List.foldlM_cons]
          exact (bind_pure _).symm
      | cons next lines =>
          have hfile : configFile (line :: next :: lines) =
              line.text ++ '\n' :: configFile (next :: lines) := by
            simp [configFile, List.intercalate_cons_cons]
          rw [hfile, foldlM_line htrims hquads, List.foldlM_cons]
          exact congrArg _ (funext ih)

/-! ## The rules that are installed -/

/-- The file installs the rules that are written in it, in their order, and marks their
external ports and no others as assigned. -/
def Installs (lib : ConfigLib) (ifaceList : List NamedIface) (lines : List ConfigLine) : Prop :=
  ∃ nat, parseConfig lib ifaceList (some (configFile lines)) {} = some (0, nat) ∧
    nat.rules = rulesOf lines ∧
    ∀ port, nat.assignedPorts port = true ↔
      ∃ rule ∈ rulesOf lines, rule.externalPort = port

theorem exists_ifNameToIface_iff {name : List Char} :
    (∃ iface, ifNameToIface ifaceList name = some iface) ↔
      ∃ iface ∈ ifaceList, iface.name = name := by
  rw [← Option.isSome_iff_exists, ifNameToIface, List.find?_isSome]
  simp only [beq_iff_eq]

/-- A line fails only on an interface that is not there. -/
theorem exists_installLine (nat : NatConfig) {line : ConfigLine}
    (h : line.NamesIface ifaceList) : ∃ nat', installLine lib ifaceList nat line = some nat' := by
  cases line with
  | internalIface name =>
      obtain ⟨iface, hiface⟩ := exists_ifNameToIface_iff.mpr h
      exact ⟨_, by rw [installLine, hiface]; rfl⟩
  | externalIface name =>
      obtain ⟨iface, hiface⟩ := exists_ifNameToIface_iff.mpr h
      exact ⟨_, by rw [installLine, hiface]; rfl⟩
  | blank spaces => exact ⟨nat, rfl⟩
  | dnatRule rule => exact ⟨_, rfl⟩

/-- What a line that does not fail has done. -/
theorem of_installLine {nat' : NatConfig} {line : ConfigLine}
    (h : installLine lib ifaceList nat line = some nat') :
    line.NamesIface ifaceList ∧ nat'.rules = nat.rules ++ (rulesOf [line]).map lib.readAs := by
  cases line with
  | internalIface name =>
      obtain ⟨iface, hiface, rfl⟩ := Option.map_eq_some_iff.mp h
      exact ⟨exists_ifNameToIface_iff.mp ⟨iface, hiface⟩, (List.append_nil _).symm⟩
  | externalIface name =>
      obtain ⟨iface, hiface, rfl⟩ := Option.map_eq_some_iff.mp h
      exact ⟨exists_ifNameToIface_iff.mp ⟨iface, hiface⟩, (List.append_nil _).symm⟩
  | blank spaces =>
      obtain rfl := Option.some.inj h
      exact ⟨trivial, (List.append_nil _).symm⟩
  | dnatRule rule =>
      obtain rfl := Option.some.inj h
      exact ⟨trivial, rfl⟩

theorem rulesOf_cons (line : ConfigLine) (lines : List ConfigLine) :
    rulesOf (line :: lines) = rulesOf [line] ++ rulesOf lines := by
  rw [rulesOf, rulesOf, rulesOf, ← List.filterMap_append, List.singleton_append]

/-- What is left by all lines. -/
theorem foldlM_installLine {nat' : NatConfig} {lines : List ConfigLine}
    (h : lines.foldlM (installLine lib ifaceList) nat = some nat') :
    (∀ line ∈ lines, line.NamesIface ifaceList) ∧
      nat'.rules = nat.rules ++ (rulesOf lines).map lib.readAs := by
  induction lines generalizing nat with
  | nil =>
      obtain rfl := Option.some.inj h
      exact ⟨fun line hline => absurd hline List.not_mem_nil, (List.append_nil _).symm⟩
  | cons line lines ih =>
      rw [List.foldlM_cons] at h
      obtain ⟨next, hnext, hrest⟩ := Option.bind_eq_some_iff.mp h
      obtain ⟨hname, hrule⟩ := of_installLine hnext
      obtain ⟨hnames, hrules⟩ := ih hrest
      refine ⟨List.forall_mem_cons.mpr ⟨hname, hnames⟩, ?_⟩
      rw [hrules, hrule, rulesOf_cons line lines, List.map_append, List.append_assoc]

theorem exists_foldlM_installLine (nat : NatConfig) {lines : List ConfigLine}
    (h : ∀ line ∈ lines, line.NamesIface ifaceList) :
    ∃ nat', lines.foldlM (installLine lib ifaceList) nat = some nat' := by
  induction lines generalizing nat with
  | nil => exact ⟨nat, rfl⟩
  | cons line lines ih =>
      obtain ⟨hline, hlines⟩ := List.forall_mem_cons.mp h
      obtain ⟨next, hnext⟩ : ∃ next, installLine lib ifaceList nat line = some next :=
        exists_installLine nat hline
      obtain ⟨nat', hrest⟩ := ih next hlines
      exact ⟨nat', by rw [List.foldlM_cons, hnext]; exact hrest⟩

theorem rules_parseConfig (htrims : lib.Trims) (hquads : lib.ReadsQuads)
    {lines : List ConfigLine}
    (h : parseConfig lib ifaceList (some (configFile lines)) {} = some (0, nat)) :
    (∀ line ∈ lines, line.NamesIface ifaceList) ∧
      nat.rules = (rulesOf lines).map lib.readAs := by
  rw [parseConfig_lines htrims hquads] at h
  obtain ⟨last, hlast, heq⟩ := Option.map_eq_some_iff.mp h
  obtain ⟨-, rfl⟩ := Prod.mk.inj heq
  exact foldlM_installLine hlast

theorem map_readAs_eq_iff (rules : List DnatRule) :
    rules.map lib.readAs = rules ↔ ∀ rule ∈ rules, lib.ReadsBack rule := by
  constructor
  · intro h rule hrule
    rw [← lib.readAs_eq_iff]
    refine List.map_inj_left.mp (h.trans (List.map_id _).symm) rule hrule
  · intro h
    refine (List.map_congr_left fun rule hrule => ?_).trans (List.map_id _)
    exact (lib.readAs_eq_iff rule).mpr (h rule hrule)

/-- The rules of a file are installed as they are written iff the interfaces of the file are
there and each rule reads back. -/
theorem parseConfig_installs_iff (lib : ConfigLib) (htrims : lib.Trims)
    (hquads : lib.ReadsQuads) (ifaceList : List NamedIface) (lines : List ConfigLine) :
    Installs lib ifaceList lines ↔
      (∀ line ∈ lines, line.NamesIface ifaceList) ∧
        ∀ rule ∈ rulesOf lines, lib.ReadsBack rule := by
  constructor
  · rintro ⟨nat, hparse, hrules, -⟩
    obtain ⟨hnames, hread⟩ := rules_parseConfig htrims hquads hparse
    exact ⟨hnames, (map_readAs_eq_iff _).mp (hread.symm.trans hrules)⟩
  · rintro ⟨hnames, hback⟩
    obtain ⟨nat, hnat⟩ : ∃ nat, lines.foldlM (installLine lib ifaceList) {} = some nat :=
      exists_foldlM_installLine {} hnames
    have hparse : parseConfig lib ifaceList (some (configFile lines)) {} = some (0, nat) := by
      rw [parseConfig_lines htrims hquads, hnat]
      rfl
    have hrules : nat.rules = rulesOf lines :=
      (rules_parseConfig htrims hquads hparse).2.trans ((map_readAs_eq_iff _).mpr hback)
    refine ⟨nat, hparse, hrules, fun port => ?_⟩
    rw [← hrules, ← NatTable.assignedPorts_natInit_iff ⟨0⟩,
      ← tabled_parseConfig hparse ⟨0⟩]
    rfl

end NatConfig

/-! ## The second experiment -/

namespace ConfigLib

/-- Text that is not a dotted quad is read as the address zero. -/
def readQuad (s : List Char) : UInt32 :=
  let fields := s.splitOn '.'
  if fields.length = 4 ∧ fields.all (fun field => !field.isEmpty && field.all Char.isDigit) then
    UInt32.ofNat (fields.foldl (fun n field => n * 256 + Nat.ofDigitChars 10 field 0) 0)
  else 0

def inPlace : ConfigLib where
  strstrip := fun buf p => p.map fun p => ((strim buf p).1, some (strim buf p).2)
  ipv4ToInt := readQuad

theorem trims_inPlace : inPlace.Trims := by
  intro front pad text pad' rest hpad hpad' htext
  obtain ⟨rest', hstrim⟩ := strim_eq front rest hpad hpad' htext
  refine ⟨rest', ?_⟩
  simp only [inPlace, Option.map_some, hstrim]

theorem splitOn_dottedQuad (ip : UInt32) :
    (dottedQuad ip).splitOn '.' = (octets ip).map (Nat.toDigits 10) := by
  refine List.splitOn_intercalate _ ?_ (by simp [octets])
  intro field hfield
  obtain ⟨n, -, rfl⟩ := List.mem_map.mp hfield
  exact not_mem_toDigits rfl

theorem readsQuads_inPlace : inPlace.ReadsQuads := by
  intro ip
  have hlt := ip.toNat_lt
  have hdigits : ∀ n, Nat.ofDigitChars 10 (Nat.toDigits 10 n) 0 = n :=
    fun n => Nat.ofDigitChars_toDigits (by decide) (by decide)
  have hfields : ((octets ip).map (Nat.toDigits 10)).all
      (fun field => !field.isEmpty && field.all Char.isDigit) = true := by
    rw [List.all_eq_true]
    intro field hfield
    obtain ⟨n, -, rfl⟩ := List.mem_map.mp hfield
    rw [Bool.and_eq_true, Bool.not_eq_true', List.isEmpty_eq_false_iff, List.all_eq_true]
    exact ⟨Nat.toDigits_ne_nil, fun c hc => isDigit_of_mem hc⟩
  have hvalue : (((ip.toNat / 2 ^ 24 * 256 + ip.toNat / 2 ^ 16 % 256) * 256 +
      ip.toNat / 2 ^ 8 % 256) * 256 + ip.toNat % 256) = ip.toNat := by
    omega
  simp only [inPlace, readQuad, splitOn_dottedQuad]
  rw [if_pos ⟨by simp [octets], hfields⟩]
  simp only [octets, List.map_cons, List.map_nil, List.foldl_cons, List.foldl_nil, hdigits,
    Nat.zero_mul, Nat.zero_add, hvalue, UInt32.ofNat_toNat]

end ConfigLib

def n1Eth0 : IfName where
  text := "n1-eth0".toList
  ne_nil := by decide
  short := by decide
  no_nul := by decide
  no_space := by simp [isspace]

def n1Eth1 : IfName where
  text := "n1-eth1".toList
  ne_nil := by decide
  short := by decide
  no_nul := by decide
  no_space := by simp [isspace]

def n1Ifaces : List NamedIface := [⟨⟨0x0a1500fe⟩, n1Eth0.text⟩, ⟨⟨0x9fe2272b⟩, n1Eth1.text⟩]

/-- The lines of `exp2.conf`. -/
def exp2 : List ConfigLine := [
  .internalIface n1Eth0,
  .externalIface n1Eth1,
  .blank ⟨[], by simp⟩,
  .dnatRule ⟨0x9fe2272b, 8000, 0x0a150001, 8000⟩,
  .dnatRule ⟨0x9fe2272b, 8001, 0x0a150002, 8000⟩,
  .blank ⟨[], by simp⟩]

namespace NatConfig

/-- The first rule of the experiment is installed for port 159. -/
theorem not_installs_exp2 :
    ¬ ∀ lib : ConfigLib, lib.Trims → lib.ReadsQuads →
      ∀ (ifaceList : List NamedIface) (lines : List ConfigLine),
        (∀ line ∈ lines, line.NamesIface ifaceList) → Installs lib ifaceList lines := by
  intro h
  have hnames : ∀ line ∈ exp2, line.NamesIface n1Ifaces := by
    simp [exp2, n1Ifaces, ConfigLine.NamesIface]
  obtain ⟨nat, hparse, hrules, -⟩ := h ConfigLib.inPlace ConfigLib.trims_inPlace
    ConfigLib.readsQuads_inPlace n1Ifaces exp2 hnames
  have hread := (rules_parseConfig ConfigLib.trims_inPlace ConfigLib.readsQuads_inPlace hparse).2
  have hport := congrArg (List.map DnatRule.externalPort) (hread.symm.trans hrules)
  exact absurd hport (by decide +kernel)

/-- A rule for port 159 of the external address, to the internal endpoint 0.0.0.0:159. -/
theorem parseConfig_installs_iff_octet :
    Installs ConfigLib.inPlace n1Ifaces
      [.internalIface n1Eth0, .dnatRule ⟨0x9fe2272b, 159, 0, 159⟩] := by
  refine (parseConfig_installs_iff ConfigLib.inPlace ConfigLib.trims_inPlace
    ConfigLib.readsQuads_inPlace _ _).mpr ⟨?_, ?_⟩
  · simp [n1Ifaces, ConfigLine.NamesIface]
  · simp only [rulesOf, List.filterMap, ConfigLine.rule?, List.forall_mem_singleton]
    exact { externalPort := by decide, internalIp := by decide +kernel, internalPort := rfl }

end NatConfig

end NetworkLabs
