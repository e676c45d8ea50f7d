import GrAta.Observation.DescriptorText

/-!
# Descriptors and the files that hold them

The template of a descriptor is read from a file, and the descriptor is printed to another one.
The printer of the language is a parameter. It prints a literal of the dictionary that it gets.

## Main definitions

- `entryPerLine`: a printer
- `wholeNumbers`: floats that are whole numbers

## Main results

- `describe_sorted`: the descriptor is a dictionary in order
- `roundTrips_iff`: when it is read back from its file
-/

namespace GrAta.Observation

open Json StringRepr

variable {F : Type}

section Descriptors

variable [Sub F] [Mul F] [NatCast F] (host : Host F) (localTime : ℤ → String)
  (args : DescriptorArgs F)

theorem describe_sorted {template : List (String × Json F)} (h : (Json.obj template).Sorted) :
    (Json.obj (args.describe localTime template)).Sorted := by
  refine h.assign ?_
  simp only [DescriptorArgs.assignments, List.forall_mem_cons]
  refine ⟨trivial, trivial, trivial, trivial, trivial, trivial, trivial, ⟨trivial, ?_⟩, trivial,
    trivial, trivial, trivial, trivial, trivial, List.forall_mem_nil _⟩
  refine everyItem_iff.mpr fun x hx => ?_
  obtain ⟨name, -, rfl⟩ := List.mem_map.mp hx
  trivial

/-- A descriptor is read back from the file that is written if the printer sets every string in
one piece and nothing of the descriptor is lost. -/
theorem roundTrips_iff (pformat : List (String × Json F) → Layout F .value)
    (hpformat : ∀ d, (Json.obj d).Sorted → (pformat d).value = Json.obj d)
    {templateText : List Char} {template : List (String × Json F)}
    (htemplate : load host.read templateText = some (.obj template)) :
    (∃ metadata, createObservationDescriptor localTime args template = .ok metadata ∧
        load host.read (jsonStr (pythonText host (pformat metadata))) = some (.obj metadata)) ↔
      (pformat (args.describe localTime template)).Whole ∧
        (Json.obj (args.describe localTime template)).Every (Portable host) := by
  have hsorted := describe_sorted localTime args (load_sorted htemplate)
  have hvalue := hpformat _ hsorted
  have hiff := load_jsonStr_iff host (pformat (args.describe localTime template))
    (hvalue ▸ hsorted)
  rw [hvalue] at hiff
  rw [createObservationDescriptor_eq, ← hiff]
  constructor
  · rintro ⟨metadata, hmetadata, hload⟩
    rwa [Except.ok.inj hmetadata]
  · exact fun hload => ⟨_, rfl, hload⟩

end Descriptors

-- ════════════════════════════════════════════════════════════════════════
-- One entry a line
-- ════════════════════════════════════════════════════════════════════════

def noBlank : Blank := ⟨[], List.forall_mem_nil _⟩

/-- Spaces, behind a line end or not. -/
def spaces (line : Bool) (n : ℕ) : Blank :=
  ⟨(if line then ['\n'] else []) ++ List.replicate n ' ', by
    intro c hc
    rcases List.mem_append.mp hc with hc | hc
    · split_ifs at hc
      · exact Or.inr (List.mem_singleton.mp hc)
      · exact absurd hc List.not_mem_nil
    · exact Or.inl (List.eq_of_mem_replicate hc)⟩

mutual

/-- A value that fits in a line. -/
def inline : Json F → Layout F .value
  | .null => .none
  | .bool b => .bool b
  | .int z => .int z
  | .float x => .float x
  | .str s => .str s.toList []
  | .arr [] => .emptyList noBlank
  | .arr (x :: items) => .list noBlank (inline x) (inlineItems items)
  | .obj [] => .emptyDict noBlank
  | .obj ((k, x) :: entries) =>
    .dict noBlank k.toList (spaces false 1) (inline x) (inlineEntries entries)

def inlineItems : List (Json F) → Layout F .items
  | [] => .endList noBlank
  | x :: items => .item (spaces false 1) (inline x) (inlineItems items)

def inlineEntries : List (String × Json F) → Layout F .entries
  | [] => .endDict noBlank
  | (k, x) :: entries =>
    .entry (spaces false 1) k.toList (spaces false 1) (inline x) (inlineEntries entries)

end

mutual

theorem inline_value : ∀ x : Json F, (inline x).value = x
  | .null => rfl
  | .bool _ => rfl
  | .int _ => rfl
  | .float _ => rfl
  | .str s => by
    rw [inline, Layout.value, List.map_nil, List.flatten_nil, List.append_nil, String.ofList_toList]
  | .arr [] => rfl
  | .arr (x :: items) => by
    rw [inline, Layout.value, inline_value x, inlineItems_value items]
  | .obj [] => rfl
  | .obj ((k, x) :: entries) => by
    rw [inline, Layout.value, inline_value x, inlineEntries_value entries, String.ofList_toList]

theorem inlineItems_value : ∀ items : List (Json F), (inlineItems items).value = items
  | [] => rfl
  | x :: items => by
    rw [inlineItems, Layout.value, inline_value x, inlineItems_value items]

theorem inlineEntries_value :
    ∀ entries : List (String × Json F), (inlineEntries entries).value = entries
  | [] => rfl
  | (k, x) :: entries => by
    rw [inlineEntries, Layout.value, inline_value x, inlineEntries_value entries,
      String.ofList_toList]

end

def laterLines : List (String × Json F) → Layout F .entries
  | [] => .endDict noBlank
  | (k, x) :: entries =>
    .entry (spaces true 4) k.toList (spaces false 1) (inline x) (laterLines entries)

/-- A dictionary with one entry a line, as it is printed if it does not fit in one line and each
of its entries does. -/
def entryPerLine : List (String × Json F) → Layout F .value
  | [] => .emptyDict noBlank
  | (k, x) :: entries =>
    .dict (spaces false 3) k.toList (spaces false 1) (inline x) (laterLines entries)

theorem laterLines_value (entries : List (String × Json F)) :
    (laterLines entries).value = entries := by
  induction entries with
  | nil => rfl
  | cons e entries ih =>
    rw [laterLines, Layout.value, inline_value, ih, String.ofList_toList]

theorem entryPerLine_value (d : List (String × Json F)) :
    (entryPerLine d).value = Json.obj d := by
  cases d with
  | nil => rfl
  | cons e entries =>
    rw [entryPerLine, Layout.value, inline_value, laterLines_value, String.ofList_toList]

mutual

theorem inline_whole : ∀ x : Json F, (inline x).Whole
  | .str _ => rfl
  | .arr (x :: items) => ⟨inline_whole x, inlineItems_whole items⟩
  | .obj ((_, x) :: entries) => ⟨inline_whole x, inlineEntries_whole entries⟩
  | .null => trivial
  | .bool _ => trivial
  | .int _ => trivial
  | .float _ => trivial
  | .arr [] => trivial
  | .obj [] => trivial

theorem inlineItems_whole : ∀ items : List (Json F), (inlineItems items).Whole
  | [] => trivial
  | x :: items => ⟨inline_whole x, inlineItems_whole items⟩

theorem inlineEntries_whole : ∀ entries : List (String × Json F), (inlineEntries entries).Whole
  | [] => trivial
  | (_, x) :: entries => ⟨inline_whole x, inlineEntries_whole entries⟩

end

theorem laterLines_whole : ∀ entries : List (String × Json F), (laterLines entries).Whole
  | [] => trivial
  | (_, x) :: entries => ⟨inline_whole x, laterLines_whole entries⟩

/-- This printer sets every string in one piece. -/
theorem entryPerLine_whole : ∀ d : List (String × Json F), (entryPerLine d).Whole
  | [] => trivial
  | (_, x) :: entries => ⟨inline_whole x, laterLines_whole entries⟩

/-- Floats that are whole numbers. -/
def wholeNumbers : Host ℤ where
  repr z := integerText z ++ ['.', '0']
  read token := readInteger (token.take (token.length - 2))
  finite _ := true
  printable _ := true
  repr_token z _ := by
    refine ⟨integerText z, ['.', '0'], by decide, ?_⟩
    rw [scanNumber, scanInteger_append (by simp) (by simp) (scanInteger_integerText z)]
    rfl
  read_repr z _ := by
    rw [List.length_append, List.length_cons, List.length_singleton, Nat.add_sub_cancel,
      List.take_left, readInteger_integerText]
  repr_not_finite _ h := absurd h (by decide)

theorem load_braces : load wholeNumbers.read ['{', '}'] = some (.obj []) := rfl

/-- A name with an apostrophe. -/
def barnard : DescriptorArgs ℤ := { callFor "2b,3c" with objectName := "Barnard's star" }

/-- The apostrophe becomes a quote that ends the name. -/
theorem barnard_not_roundTrips :
    load wholeNumbers.read ['{', '}'] = some (.obj []) ∧
      (∀ d, (Json.obj d).Sorted → (entryPerLine d).value = (Json.obj d : Json ℤ)) ∧
      ¬∃ metadata, createObservationDescriptor (fun _ => "2021-02-09") barnard [] =
          .ok metadata ∧
        load wholeNumbers.read (jsonStr (pythonText wholeNumbers (entryPerLine metadata))) =
          some (.obj metadata) := by
  refine ⟨load_braces, fun d _ => entryPerLine_value d, ?_⟩
  rintro ⟨metadata, hmetadata, hload⟩
  rw [createObservationDescriptor_eq] at hmetadata
  obtain rfl := Except.ok.inj hmetadata
  rw [← entryPerLine_value] at hload
  have hportable := (portable_of_load wholeNumbers _ hload).2
  rw [entryPerLine_value] at hportable
  have hname : (barnard.describe (fun _ => "2021-02-09") []).lookup "object_name" =
      some (.str "Barnard's star") := by
    simp [DescriptorArgs.describe, DescriptorArgs.assignments, Dictionary.assign,
      Dictionary.lookup_insert, barnard]
  obtain ⟨front, behind, hsplit, -⟩ := List.lookup_eq_some_iff.mp hname
  have hentry := everyEntry_iff.mp hportable.2 ("object_name", .str "Barnard's star")
    (hsplit ▸ List.mem_append_right front List.mem_cons_self)
  exact (hentry.2.1 '\'' (by decide +kernel)).1 rfl

/-- The condition for a descriptor that is printed with one entry a line. -/
theorem roundTrips_iff_two :
    (∃ metadata, createObservationDescriptor (fun _ => "2021-02-09") (callFor "2b,3c") [] =
          .ok metadata ∧
        load wholeNumbers.read (jsonStr (pythonText wholeNumbers (entryPerLine metadata))) =
          some (.obj metadata)) ↔
      (entryPerLine ((callFor "2b,3c").describe (fun _ => "2021-02-09") [])).Whole ∧
        (Json.obj ((callFor "2b,3c").describe (fun _ => "2021-02-09") [])).Every
          (Portable wholeNumbers) :=
  roundTrips_iff wholeNumbers _ (callFor "2b,3c") entryPerLine (fun d _ => entryPerLine_value d)
    load_braces

end GrAta.Observation
