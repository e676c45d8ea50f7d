import Mathlib.Data.Nat.Notation
import GrAta.Library.Json

/-!
# The descriptor of an observation

The script that makes a descriptor changes a template: it assigns the arguments of its call to
keys of the template. The script that reads the descriptor checks that it has certain keys, and
takes the number of baselines from one of them.

The local time and the arithmetic of floats are parameters.

## Main definitions

- `DescriptorArgs`: the arguments of the call
- `createObservationDescriptor`: the descriptor from a template
- `checkTopLevelKeys`: the check of the reader
- `MatchesAntennas`: the number of baselines belongs to the antennas

## Main results

- `createObservationDescriptor_eq`: the script always gets to a descriptor
- `checkTopLevelKeys_describe`: which the reader accepts if it accepts the template
- `matchesAntennas_describe_iff`: when its number of baselines belongs to its antennas
-/

namespace GrAta.Observation

variable {F : Type}

/-- The arguments of `create_observation_descriptor.py` that get into the descriptor. -/
structure DescriptorArgs (F : Type) where
  synctime : ℤ
  objectName : String
  antennas : String
  xdir : String
  basename : String
  skyfreq : F
  startchannel : F
  channels : ℤ
  integrationTime : F
  ntime : ℤ
  disableDelayCorrection : Bool

/-- `args.antennas.split(",")`. The call of `replace(" ", "")` before it makes another string
that is not kept. -/
def DescriptorArgs.antList (args : DescriptorArgs F) : List String :=
  (args.antennas.toList.splitOn ',').map String.ofList

section Create

variable [Sub F] [Mul F] [NatCast F] (localTime : ℤ → String)

/-- The assignments to the descriptor, in their order. -/
def DescriptorArgs.assignments (args : DescriptorArgs F) : List (String × Json F) :=
  let numAnt := args.antList.length
  let baselines := numAnt * (numAnt + 1) / 2
  let firstChanCenter := args.skyfreq - (250000 : ℕ) * ((2048 : ℕ) - args.startchannel)
  [("observation_start", .str (localTime args.synctime)),
    ("observation_start_timestamp", .int args.synctime),
    ("snap_sync_time", .int args.synctime),
    ("ntime", .int args.ntime),
    ("object_name", .str args.objectName),
    ("channels", .int args.channels),
    ("baselines", .int baselines),
    ("antenna_names", .arr (args.antList.map .str)),
    ("first_channel_center_freq", .float firstChanCenter),
    ("integration_time_seconds", .float args.integrationTime),
    ("correct_for_delay", .bool !args.disableDelayCorrection),
    ("input_dir", .str args.xdir),
    ("output_dir", .str args.xdir),
    ("observation_base_name", .str args.basename)]

def DescriptorArgs.describe (args : DescriptorArgs F) (template : List (String × Json F)) :
    List (String × Json F) :=
  Dictionary.assign template (args.assignments localTime)

/-- The descriptor, or the message before `exit(1)`. -/
def createObservationDescriptor (args : DescriptorArgs F) (template : List (String × Json F)) :
    Except String (List (String × Json F)) :=
  if args.antList.length = 0 then .error "ERROR: Antennas must be provided."
  else .ok (args.describe localTime template)

end Create

/-- The keys that `read_correlated_data.py` needs. -/
def expectedTopLevelKeys : List String :=
  ["num_baselines", "instrument", "telescope_name", "telescope_location", "object_name",
    "antenna_names", "channel_width", "first_channel_center_freq", "integration_time_seconds",
    "polarizations", "input_dir", "observation_base_name", "output_dir"]

/-- The first key that is missing ends the script. -/
def checkKeys (descriptorFile : String) (metadata : List (String × Json F)) :
    List String → Except String Unit
  | [] => .ok ()
  | expectedKey :: keys =>
    if (metadata.lookup expectedKey).isSome then checkKeys descriptorFile metadata keys
    else .error ("ERROR: Unable to find top-level key " ++ expectedKey ++ " in " ++ descriptorFile)

def checkTopLevelKeys (descriptorFile : String) (metadata : List (String × Json F)) :
    Except String Unit :=
  checkKeys descriptorFile metadata expectedTopLevelKeys

theorem checkKeys_eq_ok_iff {descriptorFile : String} {metadata : List (String × Json F)}
    {keys : List String} : checkKeys descriptorFile metadata keys = .ok () ↔
      ∀ k ∈ keys, (metadata.lookup k).isSome = true := by
  induction keys with
  | nil => exact iff_of_true rfl (List.forall_mem_nil _)
  | cons k keys ih =>
    rw [checkKeys, List.forall_mem_cons, ← ih]
    split_ifs with h
    · exact (and_iff_right h).symm
    · exact iff_of_false (by simp) fun h' => h h'.1

theorem antList_ne_nil (args : DescriptorArgs F) : args.antList ≠ [] :=
  fun h => List.splitOn_ne_nil ',' args.antennas.toList (List.map_eq_nil_iff.mp h)

/-- The parts of a list hold all of its elements but the separators. -/
theorem exists_mem_splitOn_iff {a c : Char} (h : c ≠ a) (s : List Char) :
    (∃ part ∈ s.splitOn a, c ∈ part) ↔ c ∈ s := by
  induction s with
  | nil => simp
  | cons d s ih =>
    rw [List.splitOn_cons_eq_if_modifyHead, List.mem_cons, ← ih]
    by_cases hd : d = a
    · rw [if_pos (beq_iff_eq.mpr hd)]
      simp [hd, h]
    · rw [if_neg (by simpa using hd)]
      obtain ⟨part, parts, hparts⟩ := List.exists_cons_of_ne_nil (List.splitOn_ne_nil a s)
      rw [hparts, List.modifyHead_cons]
      simp [or_assoc]

/-- A blank in the argument stays in the name of an antenna. -/
theorem no_blank_iff (args : DescriptorArgs F) :
    (∀ name ∈ args.antList, ' ' ∉ name.toList) ↔ ' ' ∉ args.antennas.toList := by
  rw [← exists_mem_splitOn_iff (a := ',') (by decide)]
  simp [DescriptorArgs.antList]

section Create

variable [Sub F] [Mul F] [NatCast F] (localTime : ℤ → String) (args : DescriptorArgs F)
  {template : List (String × Json F)}

theorem createObservationDescriptor_eq :
    createObservationDescriptor localTime args template =
      .ok (args.describe localTime template) :=
  if_neg fun h => antList_ne_nil args (List.length_eq_zero_iff.mp h)

/-- The descriptor has every key that the template has. -/
theorem checkTopLevelKeys_describe {templateFile descriptorFile : String}
    (h : checkTopLevelKeys templateFile template = .ok ()) :
    checkTopLevelKeys descriptorFile (args.describe localTime template) = .ok () :=
  checkKeys_eq_ok_iff.mpr fun k hk =>
    Dictionary.isSome_lookup_assign (checkKeys_eq_ok_iff.mp h k hk) _

theorem lookup_antenna_names :
    (args.describe localTime template).lookup "antenna_names" =
      some (.arr (args.antList.map .str)) := by
  simp [DescriptorArgs.describe, DescriptorArgs.assignments, Dictionary.assign,
    Dictionary.lookup_insert]

/-- The count goes to another key than the one that is read. -/
theorem lookup_num_baselines :
    (args.describe localTime template).lookup "num_baselines" =
      template.lookup "num_baselines" := by
  refine Dictionary.lookup_assign_of_not_mem ?_ template
  simp [DescriptorArgs.assignments]

/-- The reader accepts the descriptor, no name of an antenna has a blank, and the number of
baselines is the one of the antennas. -/
def MatchesAntennas (descriptorFile : String) (metadata : List (String × Json F)) : Prop :=
  checkTopLevelKeys descriptorFile metadata = .ok () ∧
    ∃ names : List String, metadata.lookup "antenna_names" = some (.arr (names.map .str)) ∧
      (∀ name ∈ names, ' ' ∉ name.toList) ∧
      metadata.lookup "num_baselines" =
        some (.int ((names.length * (names.length + 1) / 2 : ℕ)))

/-- The number of baselines is the template's, and blanks are not removed. -/
theorem matchesAntennas_describe_iff {templateFile descriptorFile : String}
    (h : checkTopLevelKeys templateFile template = .ok ()) :
    MatchesAntennas descriptorFile (args.describe localTime template) ↔
      ' ' ∉ args.antennas.toList ∧
        template.lookup "num_baselines" =
          some (.int ((args.antList.length * (args.antList.length + 1) / 2 : ℕ))) := by
  rw [← no_blank_iff, MatchesAntennas, lookup_antenna_names, lookup_num_baselines]
  constructor
  · rintro ⟨-, names, hnames, hblank, hcount⟩
    have hsame : args.antList = names :=
      List.map_injective_iff.mpr (fun _ _ => Json.str.inj)
        (Json.arr.inj (Option.some.inj hnames))
    rw [hsame]
    exact ⟨hblank, hcount⟩
  · rintro ⟨hblank, hcount⟩
    exact ⟨checkTopLevelKeys_describe localTime args h, args.antList, rfl, hblank, hcount⟩

end Create

/-- A call for a list of antennas. -/
def callFor (antennas : String) : DescriptorArgs ℤ where
  synctime := 1612923335
  objectName := "3C286"
  antennas := antennas
  xdir := "/home/obs"
  basename := "casa"
  skyfreq := 1400000000
  startchannel := 1920
  channels := 256
  integrationTime := 1
  ntime := 10000
  disableDelayCorrection := false

end GrAta.Observation
