import Mathlib.Data.Int.Notation
import TandemVerifier.Library.MapList

/-! # JSON values and lossless encodings

A value is a tree whose integers are exact and whose objects are the entries of a map from
strings, in the order of their keys, or the entries of a text, in which a name can be
repeated. A type is encoded and decoded by two classes, and its encoding is lossless when
decoding inverts it. A record is an object with one entry for each field; decoding looks the
fields up by name, refuses a field that is given twice, ignores other entries, and also
takes an array that lists all fields in order.
-/
namespace TandemVerifier.Library

inductive Json where
  | null
  | bool (value : Bool)
  | number (value : ℤ)
  | string (text : String)
  | array (items : List Json)
  | object (entries : List (String × Json))

section Access

def Json.asArray : Json → Option (List Json)
  | .array items => some items
  | _ => none

def Json.asStr : Json → Option String
  | .string text => some text
  | _ => none

/-- Indexing by a name: anything but an entry of an object reads as null. -/
def Json.field : Json → String → Json
  | .object entries,name => (entries.lookup name).getD .null
  | _,_ => .null

end Access

class Serialize (α : Type) where
  toValue : α → Json

class Deserialize (α : Type) where
  fromValue : Json → Option α

export Serialize (toValue)
export Deserialize (fromValue)

class Lossless (α : Type) [Serialize α] [Deserialize α] : Prop where
  fromValue_toValue : ∀ value : α, fromValue (toValue value) = some value

export Lossless (fromValue_toValue)
attribute [simp] fromValue_toValue

section Scalars

instance : Serialize Bool := ⟨.bool⟩

instance : Deserialize Bool where
  fromValue
    | .bool value => some value
    | _ => none

instance : Lossless Bool := ⟨fun _ => rfl⟩

/-- A nonnegative integer below a bound. -/
def natFromValue (bound : ℕ) : Json → Option ℕ
  | .number value => if 0 ≤ value ∧ value.toNat < bound then some value.toNat else none
  | _ => none

instance : Serialize UInt32 := ⟨fun value => .number value.toNat⟩
instance : Deserialize UInt32 := ⟨fun value => (natFromValue UInt32.size value).map UInt32.ofNat⟩
instance : Serialize UInt64 := ⟨fun value => .number value.toNat⟩
instance : Deserialize UInt64 := ⟨fun value => (natFromValue UInt64.size value).map UInt64.ofNat⟩

theorem natFromValue_number {bound n : ℕ} (h : n < bound) : natFromValue bound (.number n) = some n := by
  rw [natFromValue,Int.toNat_natCast,if_pos ⟨Int.natCast_nonneg n,h⟩]

instance : Lossless UInt32 where
  fromValue_toValue value := by
    change (natFromValue UInt32.size (.number value.toNat)).map UInt32.ofNat = some value
    rw [natFromValue_number value.toNat_lt_size,Option.map_some,UInt32.ofNat_toNat]

instance : Lossless UInt64 where
  fromValue_toValue value := by
    change (natFromValue UInt64.size (.number value.toNat)).map UInt64.ofNat = some value
    rw [natFromValue_number value.toNat_lt_size,Option.map_some,UInt64.ofNat_toNat]

end Scalars

section Containers
variable {α β : Type} [Serialize α] [Deserialize α] [Serialize β] [Deserialize β]

instance : Serialize (Option α) where
  toValue
    | none => .null
    | some value => toValue value

instance : Deserialize (Option α) where
  fromValue
    | .null => some none
    | value => (fromValue value).map some

omit [Serialize α] in
theorem fromValue_present {value : Json} (h : value ≠ .null) :
    (fromValue value : Option (Option α)) = (fromValue value).map some := by
  cases value with
  | null => exact absurd rfl h
  | bool value => rfl
  | number value => rfl
  | string text => rfl
  | array items => rfl
  | object entries => rfl

/-- An optional value survives when no present value is written as null. -/
theorem fromValue_option [Lossless α] (hnull : ∀ value : α, toValue value ≠ .null) (value : Option α) :
    fromValue (toValue value) = some value := by
  cases value with
  | none => rfl
  | some value =>
    have hpresent : (fromValue (toValue value) : Option (Option α)) = (fromValue (toValue value)).map some :=
      fromValue_present (hnull value)
    rw [fromValue_toValue,Option.map_some] at hpresent
    exact hpresent

instance : Serialize (List α) := ⟨fun values => .array (values.map toValue)⟩

instance : Deserialize (List α) where
  fromValue
    | .array items => items.mapM fromValue
    | _ => none

instance [Lossless α] : Lossless (List α) where
  fromValue_toValue values := by
    change (values.map toValue).mapM fromValue = some values
    induction values with
    | nil => rfl
    | cons value rest ih => simp [ih]

instance : Serialize (α × β) := ⟨fun pair => .array [toValue pair.1,toValue pair.2]⟩

instance : Deserialize (α × β) where
  fromValue
    | .array [first,second] => do
      let left ← fromValue first
      let right ← fromValue second
      some (left,right)
    | _ => none

instance [Lossless α] [Lossless β] : Lossless (α × β) where
  fromValue_toValue pair := by
    change (fromValue (toValue pair.1) >>= fun left => fromValue (toValue pair.2) >>= fun right =>
      some (left,right)) = some pair
    simp

end Containers

section Enumerations
variable {α : Type}

/-- A unit variant is read by its name, or from an object that maps its name to null. -/
def variantFromValue (name : α → String) (variants : List α) : Json → Option α
  | .string text => variants.find? fun variant => name variant == text
  | .object [(text,.null)] => variants.find? fun variant => name variant == text
  | _ => none

theorem variantFromValue_name {name : α → String} {variants : List α} {variant : α}
    (hnames : (variants.map name).Nodup) (hmem : variant ∈ variants) :
    variantFromValue name variants (.string (name variant)) = some variant := by
  change (variants.find? fun other => name other == name variant) = some variant
  cases hfind : variants.find? fun other => name other == name variant with
  | none =>
    have hother := List.find?_eq_none.mp hfind variant hmem
    simp at hother
  | some other =>
    have hsame := List.find?_some hfind
    have hmember := List.mem_of_find?_eq_some hfind
    rw [List.inj_on_of_nodup_map hnames hmember hmem (by simpa using hsame)]

end Enumerations

section Records
variable {α : Type}

/-- Insertion into a map whose entries are in the order of their keys. -/
def insertEntry (name : String) (value : Json) : List (String × Json) → List (String × Json)
  | [] => [(name,value)]
  | entry :: rest =>
    match compare name entry.1 with
    | .lt => (name,value) :: entry :: rest
    | .eq => (name,value) :: rest
    | .gt => entry :: insertEntry name value rest

/-- The map that results from inserting entries one after another. -/
def sortEntries (entries : List (String × Json)) : List (String × Json) :=
  entries.foldl (fun map entry => insertEntry entry.1 entry.2 map) []

/-- An object with one entry for each name. -/
def record (names : List String) (values : List Json) : Json := .object (sortEntries (names.zip values))

/-- No entry repeats one of these names. -/
def NamedOnce (names : List String) (entries : List (String × Json)) : Prop :=
  ∀ name ∈ names, (entries.map Prod.fst).count name ≤ 1

instance decidableNamedOnce {names : List String} {entries : List (String × Json)} :
    Decidable (NamedOnce names entries) :=
  inferInstanceAs (Decidable (∀ name ∈ names, (entries.map Prod.fst).count name ≤ 1))

/-- The fields of a record by name; a field of an object may be missing, but not given twice. -/
def recordFields (names : List String) : Json → Option (String → Option Json)
  | .object entries => if NamedOnce names entries then some fun name => entries.lookup name else none
  | .array items =>
    if items.length = names.length then some fun name => (names.zip items).lookup name else none
  | _ => none

def required [Deserialize α] (value : Option Json) : Option α := value.bind fromValue

/-- A field that may be left out. -/
def optional [Deserialize α] : Option Json → Option (Option α)
  | none => some none
  | some value => fromValue value

/-- The variant that a record carries in one of its entries, with the value that holds its fields. -/
def taggedValue (tag : String) : Json → Option (String × Json)
  | .object entries =>
    if NamedOnce [tag] entries then
      match entries.lookup tag with
      | some (.string variant) => some (variant,.object entries)
      | _ => none
    else none
  | .array (.string variant :: items) => some (variant,.array items)
  | _ => none

theorem insertEntry_perm {name : String} {value : Json} {entries : List (String × Json)}
    (hfresh : name ∉ entries.map Prod.fst) : (insertEntry name value entries).Perm ((name,value) :: entries) := by
  induction entries with
  | nil => exact List.Perm.refl _
  | cons entry rest ih =>
    rw [List.map_cons,List.mem_cons,not_or] at hfresh
    unfold insertEntry
    split
    · exact List.Perm.refl _
    · next heq => exact absurd (Std.LawfulEqCmp.eq_of_compare heq) hfresh.1
    · exact ((ih hfresh.2).cons entry).trans (List.Perm.swap _ _ _)

theorem sortEntries_from {entries map : List (String × Json)} (hnames : (entries.map Prod.fst).Nodup)
    (hfresh : ∀ entry ∈ entries, entry.1 ∉ map.map Prod.fst) :
    (entries.foldl (fun map entry => insertEntry entry.1 entry.2 map) map).Perm (map ++ entries) := by
  induction entries generalizing map with
  | nil =>
    rw [List.append_nil]
    exact List.Perm.refl _
  | cons entry rest ih =>
    rw [List.map_cons,List.nodup_cons] at hnames
    have hinsert : (insertEntry entry.1 entry.2 map).Perm (entry :: map) :=
      insertEntry_perm (hfresh entry List.mem_cons_self)
    have hrest : ∀ other ∈ rest, other.1 ∉ (insertEntry entry.1 entry.2 map).map Prod.fst := by
      intro other hother
      rw [(hinsert.map Prod.fst).mem_iff,List.map_cons,List.mem_cons,not_or]
      refine ⟨fun hsame => hnames.1 ?_,hfresh other (List.mem_cons_of_mem entry hother)⟩
      rw [← hsame]
      exact List.mem_map_of_mem hother
    exact (ih hnames.2 hrest).trans ((hinsert.append_right rest).trans List.perm_middle.symm)

/-- Distinct names are only reordered. -/
theorem sortEntries_perm {entries : List (String × Json)} (hnames : (entries.map Prod.fst).Nodup) :
    (sortEntries entries).Perm entries :=
  sortEntries_from hnames (by simp)

theorem lookup_sortEntries {entries : List (String × Json)} (hnames : (entries.map Prod.fst).Nodup)
    (name : String) : (sortEntries entries).lookup name = entries.lookup name := by
  have hperm := sortEntries_perm hnames
  cases hsorted : (sortEntries entries).lookup name with
  | none =>
    refine (List.lookup_eq_none_iff.mpr fun entry hentry => ?_).symm
    exact List.lookup_eq_none_iff.mp hsorted entry (hperm.mem_iff.mpr hentry)
  | some value =>
    obtain ⟨before,after,hsplit,_⟩ := List.lookup_eq_some_iff.mp hsorted
    have hvalue : (name,value) ∈ entries := hperm.mem_iff.mp (by simp [hsplit])
    cases hlookup : entries.lookup name with
    | none =>
      have hother := List.lookup_eq_none_iff.mp hlookup (name,value) hvalue
      simp at hother
    | some other =>
      obtain ⟨before,after,rfl,_⟩ := List.lookup_eq_some_iff.mp hlookup
      have hsame := List.inj_on_of_nodup_map hnames hvalue
        (List.mem_append_right before List.mem_cons_self) rfl
      rw [(Prod.mk.inj hsame).2]

theorem map_lookup_zip {names : List String} {values : List Json} (hnames : names.Nodup)
    (hlength : names.length = values.length) :
    (names.map fun name => (names.zip values).lookup name) = values.map some := by
  induction names generalizing values with
  | nil =>
    rw [List.length_nil] at hlength
    rw [List.eq_nil_of_length_eq_zero hlength.symm]
    rfl
  | cons name rest ih =>
    cases values with
    | nil => simp at hlength
    | cons value others =>
      rw [List.nodup_cons] at hnames
      rw [List.length_cons,List.length_cons,Nat.add_right_cancel_iff] at hlength
      have hrest : (rest.map fun other => ((name,value) :: rest.zip others).lookup other) =
          rest.map fun other => (rest.zip others).lookup other := by
        refine List.map_congr_left fun other hother => ?_
        have hne : other ≠ name := by
          rintro rfl
          exact hnames.1 hother
        rw [List.lookup_cons,beq_false_of_ne hne]
      rw [List.zip_cons_cons,List.map_cons,hrest,ih hnames.2 hlength,List.lookup_cons_self,List.map_cons]

theorem namedOnce_of_nodup {names : List String} {entries : List (String × Json)}
    (hnames : (entries.map Prod.fst).Nodup) : NamedOnce names entries :=
  fun name _ => List.nodup_iff_count_le_one.mp hnames name

theorem recordFields_object {names : List String} {entries : List (String × Json)}
    (honce : NamedOnce names entries) :
    recordFields names (.object entries) = some fun name => entries.lookup name :=
  if_pos honce

/-- The entries of a record have distinct names. -/
theorem nodup_sortEntries {names : List String} {values : List Json} (hnames : names.Nodup)
    (hlength : names.length = values.length) : ((sortEntries (names.zip values)).map Prod.fst).Nodup := by
  have hzip : ((names.zip values).map Prod.fst).Nodup := by
    rw [List.map_fst_zip (by omega)]
    exact hnames
  exact ((sortEntries_perm hzip).map Prod.fst).nodup_iff.mpr hzip

/-- Every field of a record is found under its name. -/
theorem recordFields_record {names : List String} {values : List Json} (hnames : names.Nodup)
    (hlength : names.length = values.length) : ∃ fields,
      recordFields names (record names values) = some fields ∧ names.map fields = values.map some := by
  have hzip : ((names.zip values).map Prod.fst).Nodup := by
    rw [List.map_fst_zip (by omega)]
    exact hnames
  refine ⟨_,recordFields_object (namedOnce_of_nodup (nodup_sortEntries hnames hlength)),?_⟩
  rw [← map_lookup_zip hnames hlength]
  exact List.map_congr_left fun name _ => lookup_sortEntries hzip name

/-- A record is decoded by any function that finds its values under their names. -/
theorem decode_record {names : List String} {values : List Json} {build : (String → Option Json) → Option α}
    {result : α} (hnames : names.Nodup) (hlength : names.length = values.length)
    (hbuild : ∀ fields, names.map fields = values.map some → build fields = some result) :
    (recordFields names (record names values) >>= build) = some result := by
  obtain ⟨fields,hfields,hvalues⟩ := recordFields_record hnames hlength
  rw [hfields]
  exact hbuild fields hvalues

/-- A tagged record is decoded by its variant from its other fields. -/
theorem decode_tagged {tag variant : String} {names : List String} {values : List Json}
    {build : String → Json → Option α} {result : α} (hnames : (tag :: names).Nodup)
    (hlength : names.length = values.length)
    (hbuild : ∀ rest fields, recordFields names rest = some fields → names.map fields = values.map some →
      build variant rest = some result) :
    ((taggedValue tag (record (tag :: names) (.string variant :: values))).bind fun tagged =>
      build tagged.1 tagged.2) = some result := by
  have hall : (tag :: names).length = (Json.string variant :: values).length := by simp [hlength]
  have hentries := nodup_sortEntries hnames hall
  obtain ⟨fields,hfields,hvalues⟩ := recordFields_record hnames hall
  rw [record,recordFields_object (namedOnce_of_nodup hentries)] at hfields
  obtain rfl := Option.some.inj hfields
  rw [List.map_cons,List.map_cons,List.cons.injEq] at hvalues
  rw [record,taggedValue,if_pos (namedOnce_of_nodup hentries),hvalues.1]
  exact hbuild _ _ (recordFields_object (namedOnce_of_nodup hentries)) hvalues.2

@[simp] theorem required_toValue [Serialize α] [Deserialize α] [Lossless α] (value : α) :
    required (some (toValue value)) = some value := by
  rw [required,Option.bind_some,fromValue_toValue]

theorem optional_toValue [Serialize α] [Deserialize α] [Lossless α]
    (hnull : ∀ value : α, toValue value ≠ .null) (value : Option α) :
    optional (some (toValue value)) = some value :=
  fromValue_option hnull value

end Records

section Maps
variable {κ β : Type} [Ord κ] [Std.TransOrd κ] [Serialize β] [Deserialize β]

/-- A map whose keys are written as text. -/
def mapToValue (text : κ → String) (map : Std.ExtTreeMap κ β) : Json :=
  .object (sortEntries (map.toList.map fun entry => (text entry.1,toValue entry.2)))

def entryFromValue (parse : String → Option κ) (entry : String × Json) : Option (κ × β) := do
  let key ← parse entry.1
  let value ← fromValue entry.2
  some (key,value)

def mapFromValue (parse : String → Option κ) : Json → Option (Std.ExtTreeMap κ β)
  | .object entries => (entries.mapM (entryFromValue parse)).map fun pairs => .ofList pairs compare
  | _ => none

theorem mapM_eq_filterMap {α γ : Type} {g : α → Option γ} {xs : List α}
    (h : ∀ x ∈ xs, (g x).isSome = true) : xs.mapM g = some (xs.filterMap g) := by
  induction xs with
  | nil => rfl
  | cons x rest ih =>
    obtain ⟨y,hy⟩ := Option.isSome_iff_exists.mp (h x List.mem_cons_self)
    have hrest := ih fun z hz => h z (List.mem_cons_of_mem x hz)
    simp [hy,hrest]

/-- The keys may be reordered by their text: the map is rebuilt from its entries in any order. -/
theorem mapFromValue_mapToValue [Std.LawfulEqOrd κ] [DecidableEq κ] [Lossless β] {text : κ → String}
    {parse : String → Option κ} (hparse : ∀ key, parse (text key) = some key)
    (map : Std.ExtTreeMap κ β) : mapFromValue parse (mapToValue text map) = some map := by
  have hinjective : Function.Injective text := by
    intro key other hsame
    have hkey := hparse key
    rw [hsame,hparse other] at hkey
    exact (Option.some.inj hkey).symm
  have hentry : ∀ entry : κ × β,
      entryFromValue parse (text entry.1,toValue entry.2) = some entry := by
    intro entry
    simp [entryFromValue,hparse]
  have hnames : ((map.toList.map fun entry => (text entry.1,toValue entry.2)).map Prod.fst).Nodup := by
    have hkeys : (map.toList.map Prod.fst).Nodup := by
      rw [Std.ExtTreeMap.map_fst_toList_eq_keys]
      exact Std.ExtTreeMap.nodup_keys
    have htexts := hkeys.map hinjective
    rwa [List.map_map] at htexts ⊢
  have hperm := sortEntries_perm hnames
  have hpairs : ((sortEntries (map.toList.map fun entry => (text entry.1,toValue entry.2))).filterMap
      (entryFromValue parse)).Perm map.toList := by
    apply (hperm.filterMap _).trans
    have hsome : (entryFromValue parse ∘ fun entry : κ × β => (text entry.1,toValue entry.2)) = some :=
      funext hentry
    rw [List.filterMap_map,hsome,List.filterMap_some]
  rw [mapToValue,mapFromValue,mapM_eq_filterMap,Option.map_some,ofList_eq_of_perm hpairs]
  intro entry hentries
  obtain ⟨original,_,rfl⟩ := List.mem_map.mp (hperm.mem_iff.mp hentries)
  rw [hentry]
  rfl

end Maps
end TandemVerifier.Library
