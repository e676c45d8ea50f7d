import GrAta.Observation.RoundTrip

/-!
# Descriptors that are loaded

What the reader gets from the file of a descriptor. If no string of the descriptor has a quote,
it gets the descriptor with its words in small letters, or nothing at all. With a quote in a
string the text may even say other entries than the descriptor has.

## Main definitions

- `QuoteFree`: no quotes in strings
- `Loadable`: what the reader accepts

## Main results

- `load_jsonStr_eq_some_iff`: what is loaded
- `matchesAntennas_mapStr_iff`: what the letters do not change
- `matchesAntennas_iff`: when a loaded descriptor belongs to its antennas
-/

namespace GrAta.Observation

open Json StringRepr

variable {F : Type}

/-- A string has no quotes. -/
def QuoteFree : Json F → Prop
  | .str s => '\'' ∉ s.toList ∧ '"' ∉ s.toList
  | _ => True

/-- The reader gets to the end of the value: no `None`, no float that is not finite, and no
string with quotes or with a character that the other notation has no escape for. -/
def Loadable (host : Host F) : Json F → Prop
  | .null => False
  | .float x => host.finite x = true
  | .str s => ∀ c ∈ s.toList, c ≠ '\'' ∧ c ≠ '"' ∧ Readable host.printable c
  | _ => True

theorem Loadable.quoteFree {host : Host F} : ∀ x : Json F, Loadable host x → QuoteFree x
  | .str _, h => ⟨fun hmem => (h _ hmem).1 rfl, fun hmem => (h _ hmem).2.1 rfl⟩
  | .null, _ => trivial
  | .bool _, _ => trivial
  | .int _, _ => trivial
  | .float _, _ => trivial
  | .arr _, _ => trivial
  | .obj _, _ => trivial

theorem Portable.loadable {host : Host F} : ∀ x : Json F, Portable host x → Loadable host x
  | .str _, h => h.1
  | .null, h => h
  | .bool _, _ => trivial
  | .int _, _ => trivial
  | .float _, h => h
  | .arr _, _ => trivial
  | .obj _, _ => trivial

-- ════════════════════════════════════════════════════════════════════════
-- What is loaded
-- ════════════════════════════════════════════════════════════════════════

theorem decoded_of_loadable {host : Host F} {s : List Char}
    (h : Loadable host (.str (String.ofList s))) : decoded host s = some (lower s) := by
  rw [Loadable, String.toList_ofList] at h
  exact if_pos (allReadable_lower.mpr fun c hc => (h c hc).2.2)

theorem loadable_of_decoded {host : Host F} {s : List Char} (hquotes : '\'' ∉ s ∧ '"' ∉ s)
    (h : (decoded host s).isSome = true) : Loadable host (.str (String.ofList s)) := by
  rw [Loadable, String.toList_ofList]
  have hread : AllReadable host.printable s := by
    rw [← allReadable_lower]
    by_contra hnot
    rw [decoded, if_neg hnot] at h
    exact absurd h (by decide)
  refine fun c hc => ⟨?_, ?_, hread c hc⟩
  · rintro rfl
    exact hquotes.1 hc
  · rintro rfl
    exact hquotes.2 hc

/-- **Loading.** The literal is loaded if every string stands in one piece and the reader
accepts every value, and then with the words in small letters. -/
theorem load_jsonStr_eq_some_iff (host : Host F) (L : Layout F .value)
    (hquotes : L.value.Every QuoteFree) {x : Json F} :
    load host.read (jsonStr (pythonText host L)) = some x ↔
      L.Whole ∧ L.value.Every (Loadable host) ∧ x = L.value.mapStr lower := by
  have hpieces : L.EveryPiece fun s => '\'' ∉ s ∧ '"' ∉ s := by
    refine Layout.everyPiece_of_every (P := QuoteFree) (fun s t hts hs => ?_) L hquotes
    rw [QuoteFree, String.toList_ofList] at hs
    exact ⟨fun ht => hs.1 (hts.subset ht), fun ht => hs.2 (hts.subset ht)⟩
  have htokens : L.EveryPiece
      (Layout.Token (fun s => jsonStr (strRepr host.printable s)) (decoded host)) :=
    hpieces.imp fun s hs => token_jsonStr hs.1 hs.2
  have hdecode : L.Whole → L.value.Every (Loadable host) →
      L.decode host (decoded host) = some (L.value.mapStr lower) :=
    Layout.decode_eq_map (P := Loadable host) id (fun _ => id) (fun _ => decoded_of_loadable) L
  rw [pythonText, jsonStr_render, Layout.load_render host L htokens]
  constructor
  · intro hload
    obtain ⟨hwhole, hevery⟩ := Layout.every_value_of_decode (p := .value) (P := Loadable host)
      (fun _ => loadable_of_decoded) (fun _ => trivial) (fun _ => trivial) (fun _ => id)
      (fun _ => trivial) (fun _ => trivial) L hpieces hload
    rw [hdecode hwhole hevery] at hload
    exact ⟨hwhole, hevery, (Option.some.inj hload).symm⟩
  · rintro ⟨hwhole, hevery, rfl⟩
    exact hdecode hwhole hevery

-- ════════════════════════════════════════════════════════════════════════
-- Keys and names
-- ════════════════════════════════════════════════════════════════════════

/-- A key that has none of the words. -/
def Plain (k : String) : Prop :=
  ∀ word ∈ [['T', 'r', 'u', 'e'], ['F', 'a', 'l', 's', 'e'], ['t', 'r', 'u', 'e'],
    ['f', 'a', 'l', 's', 'e']], ¬word <:+: k.toList

theorem plain_of_expected : ∀ k ∈ expectedTopLevelKeys, Plain k := by
  unfold Plain
  decide +kernel

/-- The entry of a key without the words is found under the same key. -/
theorem lookup_mapEntries_lower {d : List (String × Json F)} (hsorted : Dictionary.Sorted d)
    {k : String} (hk : Plain k) :
    (Dictionary.ofEntries (mapEntries lower d)).lookup k = (d.lookup k).map (mapStr lower) := by
  have hself : lower k.toList = k.toList := lower_eq_self (hk _ (by simp)) (hk _ (by simp))
  rw [mapEntries_eq]
  refine Dictionary.lookup_ofEntries_map (g := fun k => String.ofList (lower k.toList))
    (by rw [hself, String.ofList_toList]) (fun e _ he => ?_) hsorted
  have hlower : lower e.1.toList = k.toList := by rw [← he, String.toList_ofList]
  exact String.toList_injective (eq_of_lower_eq hlower (hk _ (by simp)) (hk _ (by simp)))

theorem no_blank_lower_iff {name : String} :
    ' ' ∉ (String.ofList (lower name.toList)).toList ↔ ' ' ∉ name.toList := by
  rw [String.toList_ofList, not_iff_not]
  refine ⟨fun h => ?_, fun h => mem_lower_of_ne h (by decide) (by decide)⟩
  by_contra hnot
  exact not_mem_lower (by decide) hnot h

/-- **Letters.** Small letters change neither the keys nor the numbers, and put no blank in a
name. -/
theorem matchesAntennas_mapStr_iff {d : List (String × Json F)} (hsorted : Dictionary.Sorted d)
    (descriptorFile : String) :
    MatchesAntennas descriptorFile (Dictionary.ofEntries (mapEntries lower d)) ↔
      MatchesAntennas descriptorFile d := by
  have hlookup : ∀ k ∈ expectedTopLevelKeys,
      (Dictionary.ofEntries (mapEntries lower d)).lookup k = (d.lookup k).map (mapStr lower) :=
    fun k hk => lookup_mapEntries_lower hsorted (plain_of_expected k hk)
  have hcheck : checkTopLevelKeys descriptorFile (Dictionary.ofEntries (mapEntries lower d)) =
      .ok () ↔ checkTopLevelKeys descriptorFile d = .ok () := by
    rw [checkTopLevelKeys, checkTopLevelKeys, checkKeys_eq_ok_iff, checkKeys_eq_ok_iff]
    refine forall₂_congr fun k hk => ?_
    rw [hlookup k hk, Option.isSome_map]
  rw [MatchesAntennas, MatchesAntennas, hcheck, hlookup "antenna_names" (by decide),
    hlookup "num_baselines" (by decide)]
  refine and_congr_right fun _ => ⟨?_, ?_⟩
  · rintro ⟨names, hnames, hblank, hcount⟩
    obtain ⟨v, hv, harr⟩ := Option.map_eq_some_iff.mp hnames
    obtain ⟨items, rfl, hitems⟩ := exists_of_mapStr_eq_arr harr
    obtain ⟨names', rfl, rfl⟩ := exists_of_map_mapStr_eq hitems.symm
    obtain ⟨n, hn, hint⟩ := Option.map_eq_some_iff.mp hcount
    rw [mapStr_eq_int, List.length_map] at hint
    refine ⟨names', hv, fun name hname => ?_, hint ▸ hn⟩
    exact no_blank_lower_iff.mp (hblank _ (List.mem_map_of_mem hname))
  · rintro ⟨names, hnames, hblank, hcount⟩
    refine ⟨names.map fun s => String.ofList (lower s.toList), ?_, ?_, ?_⟩
    · rw [hnames, Option.map_some, mapStr, mapItems_eq, List.map_map, List.map_map]
      rfl
    · intro name hname
      obtain ⟨name', hname', rfl⟩ := List.mem_map.mp hname
      exact no_blank_lower_iff.mpr (hblank name' hname')
    · rw [hcount, List.length_map]
      rfl

section Descriptors

variable [Sub F] [Mul F] [NatCast F] (host : Host F) (localTime : ℤ → String)
  (args : DescriptorArgs F) (pformat : List (String × Json F) → Layout F .value)
  (hpformat : ∀ d, (Json.obj d).Sorted → (pformat d).value = Json.obj d)
include hpformat

/-- A descriptor without quotes in its strings belongs to its antennas when it is loaded if it
does before, and if it is loaded at all. -/
theorem matchesAntennas_loaded_iff {template : List (String × Json F)}
    (htemplate : (Json.obj template).Sorted) {templateFile descriptorFile : String}
    (h : checkTopLevelKeys templateFile template = .ok ())
    (hquotes : (Json.obj (args.describe localTime template)).Every QuoteFree) :
    (∃ metadata loaded, createObservationDescriptor localTime args template = .ok metadata ∧
        load host.read (jsonStr (pythonText host (pformat metadata))) = some (.obj loaded) ∧
        MatchesAntennas descriptorFile loaded) ↔
      (pformat (args.describe localTime template)).Whole ∧
        (Json.obj (args.describe localTime template)).Every (Loadable host) ∧
        ' ' ∉ args.antennas.toList ∧ template.lookup "num_baselines" =
          some (.int ((args.antList.length * (args.antList.length + 1) / 2 : ℕ))) := by
  have hsorted := describe_sorted localTime args htemplate
  have hvalue := hpformat _ hsorted
  have hload (loaded : List (String × Json F)) :
      load host.read (jsonStr (pythonText host (pformat (args.describe localTime template)))) =
          some (.obj loaded) ↔
        (pformat (args.describe localTime template)).Whole ∧
          (Json.obj (args.describe localTime template)).Every (Loadable host) ∧
          loaded = Dictionary.ofEntries (mapEntries lower (args.describe localTime template)) := by
    rw [load_jsonStr_eq_some_iff host _ (hvalue ▸ hquotes), hvalue, mapStr, Json.obj.injEq]
  have hmatches := (matchesAntennas_mapStr_iff (sorted_obj_iff.mp hsorted).1 descriptorFile).trans
    (matchesAntennas_describe_iff localTime args h)
  rw [← hmatches]
  constructor
  · rintro ⟨metadata, loaded, hmetadata, hloaded, hbelongs⟩
    rw [createObservationDescriptor_eq] at hmetadata
    obtain rfl := Except.ok.inj hmetadata
    obtain ⟨hwhole, hevery, rfl⟩ := (hload loaded).mp hloaded
    exact ⟨hwhole, hevery, hbelongs⟩
  · rintro ⟨hwhole, hevery, hbelongs⟩
    exact ⟨_, _, createObservationDescriptor_eq localTime args,
      (hload _).mpr ⟨hwhole, hevery, rfl⟩, hbelongs⟩

/-- **Generated descriptors.** Without quotes the descriptor that is loaded belongs to its
antennas exactly when the reader accepts the text, the argument has no blank and the template has
the number of baselines. -/
theorem matchesAntennas_iff {templateText : List Char} {template : List (String × Json F)}
    (htemplate : load host.read templateText = some (.obj template))
    {templateFile descriptorFile : String}
    (h : checkTopLevelKeys templateFile template = .ok ()) :
    ((Json.obj (args.describe localTime template)).Every QuoteFree ∧
      ∃ metadata loaded, createObservationDescriptor localTime args template = .ok metadata ∧
        load host.read (jsonStr (pythonText host (pformat metadata))) = some (.obj loaded) ∧
        MatchesAntennas descriptorFile loaded) ↔
      (pformat (args.describe localTime template)).Whole ∧
        (Json.obj (args.describe localTime template)).Every (Loadable host) ∧
        ' ' ∉ args.antennas.toList ∧ template.lookup "num_baselines" =
          some (.int ((args.antList.length * (args.antList.length + 1) / 2 : ℕ))) := by
  have hsorted := load_sorted htemplate
  constructor
  · rintro ⟨hquotes, hmatches⟩
    exact (matchesAntennas_loaded_iff host localTime args pformat hpformat hsorted h hquotes).mp
      hmatches
  · intro hall
    have hquotes := Every.imp Loadable.quoteFree _ hall.2.1
    exact ⟨hquotes,
      (matchesAntennas_loaded_iff host localTime args pformat hpformat hsorted h hquotes).mpr hall⟩

end Descriptors

-- ════════════════════════════════════════════════════════════════════════
-- A template
-- ════════════════════════════════════════════════════════════════════════

/-- A template for five antennas. -/
def fiveAntennas : List (String × Json ℤ) :=
  [("antenna_names", .arr [.str "1f", .str "2a", .str "4g", .str "1k", .str "5c"]),
    ("channel_width", .float 250000),
    ("first_channel_center_freq", .float 2968000000),
    ("input_dir", .str "/home/obs"),
    ("instrument", .str "SNAPs"),
    ("integration_time_seconds", .float 1),
    ("num_baselines", .int 15),
    ("object_name", .str "3C461"),
    ("observation_base_name", .str "casa"),
    ("output_dir", .str "/home/obs"),
    ("polarizations", .int 2),
    ("telescope_location", .arr [.int 40, .int (-121), .int 1043]),
    ("telescope_name", .str "ATA")]

theorem fiveAntennas_accepted :
    checkTopLevelKeys "template.json" fiveAntennas = .ok () := by
  decide +kernel

theorem fiveAntennas_sorted : (Json.obj fiveAntennas).Sorted := by
  unfold Json.Sorted
  decide +kernel

theorem fiveAntennas_portable : (Json.obj fiveAntennas).Every (Portable wholeNumbers) := by
  decide +kernel

/-- The file of the template. -/
def fiveAntennasText : List Char := jsonStr (pythonText wholeNumbers (entryPerLine fiveAntennas))

theorem load_fiveAntennasText :
    load wholeNumbers.read fiveAntennasText = some (.obj fiveAntennas) := by
  have hvalue := entryPerLine_value fiveAntennas
  have hload := load_jsonStr_of_portable wholeNumbers (entryPerLine fiveAntennas)
  rw [hvalue] at hload
  exact hload fiveAntennas_sorted (entryPerLine_whole _) fiveAntennas_portable

/-- The arguments are the only other strings of a descriptor from this template. -/
theorem describe_portable (antennas : String)
    (h : EveryEntry (Portable wholeNumbers)
      ((callFor antennas).assignments fun _ => "2021-02-09")) :
    (Json.obj ((callFor antennas).describe (fun _ => "2021-02-09") fiveAntennas)).Every
      (Portable wholeNumbers) := by
  rw [DescriptorArgs.describe]
  exact Every.assign (fun _ => trivial) fiveAntennas_portable h

/-- Two antennas get the number of baselines of five. -/
theorem two_of_fiveAntennas_not_match :
    load wholeNumbers.read fiveAntennasText = some (.obj fiveAntennas) ∧
      checkTopLevelKeys "template.json" fiveAntennas = .ok () ∧
      (∀ d, (Json.obj d).Sorted → (entryPerLine d).value = (Json.obj d : Json ℤ)) ∧
      ¬∃ metadata loaded, createObservationDescriptor (fun _ => "2021-02-09") (callFor "2b,3c")
          fiveAntennas = .ok metadata ∧
        load wholeNumbers.read (jsonStr (pythonText wholeNumbers (entryPerLine metadata))) =
          some (.obj loaded) ∧
        MatchesAntennas "observation.json" loaded := by
  refine ⟨load_fiveAntennasText, fiveAntennas_accepted, fun d _ => entryPerLine_value d, ?_⟩
  have hportable := describe_portable "2b,3c" (by decide +kernel)
  have hquotes := Every.imp Loadable.quoteFree _ (Every.imp Portable.loadable _ hportable)
  rw [matchesAntennas_loaded_iff wholeNumbers _ _ entryPerLine (fun d _ => entryPerLine_value d)
    fiveAntennas_sorted fiveAntennas_accepted hquotes]
  rintro ⟨-, -, -, hcount⟩
  have hfive : fiveAntennas.lookup "num_baselines" = some (.int 15) := by rfl
  have htwo : (callFor "2b,3c").antList.length = 2 := by decide +kernel
  rw [hfive, htwo] at hcount
  exact absurd (Json.int.inj (Option.some.inj hcount)) (by decide)

/-- Five antennas get their own. -/
theorem matchesAntennas_iff_five :
    (Json.obj ((callFor "2b,3c,1f,4g,5c").describe (fun _ => "2021-02-09") fiveAntennas)).Every
        QuoteFree ∧
      ∃ metadata loaded, createObservationDescriptor (fun _ => "2021-02-09")
          (callFor "2b,3c,1f,4g,5c") fiveAntennas = .ok metadata ∧
        load wholeNumbers.read (jsonStr (pythonText wholeNumbers (entryPerLine metadata))) =
          some (.obj loaded) ∧
        MatchesAntennas "observation.json" loaded := by
  have hfive : (callFor "2b,3c,1f,4g,5c").antList.length = 5 := by decide +kernel
  refine (matchesAntennas_iff wholeNumbers _ _ entryPerLine (fun d _ => entryPerLine_value d)
    load_fiveAntennasText fiveAntennas_accepted).mpr ⟨entryPerLine_whole _, ?_, ?_, ?_⟩
  · exact Every.imp Portable.loadable _ (describe_portable _ (by decide +kernel))
  · decide +kernel
  · rw [hfive]
    rfl

end GrAta.Observation
