import Mathlib.Data.Set.Function
import GpuPipe.Sys.Lock
import GpuPipe.Sys.Names

/-!
# The owner in a name

Rings, stores, spills and segments share `/dev/shm` with those of every other pipeline on the host. Teardown
of a ring finds its spills by a prefix, and `sweep_dead_owners` judges a name by the namespace and the pid
that `_OWNED` reads in it. Both rest on the bytes that end a number: a dot, an underscore, an `s`. The `d` of
a dedicated segment is a hexadecimal digit, so there it is the counter that tells two stores apart. A killed
owner still has its pid until its parent has waited for it, and so long it passes for a living one.
-/

namespace GpuPipe.Sys

def slash : UInt8 := 47

def dot : UInt8 := 46

/-- What has a name in `/dev/shm`: a ring or a store, a spill a writer made for a ring, a segment of a
store. -/
inductive Object
  | ring (creator : Creator)
  | spill (creator : Creator) (pid n : ℕ)
  | store (creator : Creator)
  | segment (creator : Creator) (id : ℕ) (dedicated : Bool)

def Object.creator : Object → Creator
  | ring creator | spill creator _ _ | store creator | segment creator _ _ => creator

def Object.name : Object → Bytes
  | ring creator => uniqueName "gpq" creator
  | spill creator pid n => spillObjectName (uniqueName "gpq" creator) pid n
  | store creator => uniqueName "gps" creator
  | segment creator id dedicated => segName (uniqueName "gps" creator) id dedicated

def trimSlashes (name : Bytes) : Bytes := name.dropWhile (· = slash)

def Object.file (object : Object) : Bytes := trimSlashes object.name

/-- The file name of `spill_dir`. -/
def spillDir (ring : Bytes) : Bytes := trimSlashes ring ++ ascii ".spill"

/-- The prefix sweep of `RingQueue::unlink`; `names` are unlinked before. -/
def prefixSweep (ring : Bytes) (names listing : List Bytes) : List Bytes :=
  listing.filter fun file ↦
    (trimSlashes ring ++ ascii "s").isPrefixOf file && !names.any fun name ↦ trimSlashes name = file

/-! ## The expression `_OWNED` -/

/-- `([0-9a-f]+)` and the byte after it: the group and what is left. -/
def hexUntil (sep : UInt8) (text : Bytes) : Option (Bytes × Bytes) :=
  match text.dropWhile isHexDigit with
  | [] => none
  | byte :: rest =>
    if text.takeWhile isHexDigit ≠ [] ∧ byte = sep then some (text.takeWhile isHexDigit, rest) else none

/-- `_OWNED.match`: the two groups of `^gp[qs]([0-9a-f]+)\.([0-9a-f]+)_`. No digit is a dot or an underscore,
so a group that takes all it can leaves nothing to try again. -/
def owned : Bytes → Option (Bytes × Bytes)
  | 103 :: 112 :: kind :: text =>
    if kind = 113 ∨ kind = 115 then do
      let (ns, text) ← hexUntil dot text
      let (pid, _) ← hexUntil underscore text
      pure (ns, pid)
    else none
  | _ => none

/-- What the expression means: some way to cut the text into its parts. -/
structure OwnedMatch (text ns pid : Bytes) : Prop where
  ns_ne : ns ≠ []
  pid_ne : pid ≠ []
  ns_digits : ∀ byte ∈ ns, isHexDigit byte = true
  pid_digits : ∀ byte ∈ pid, isHexDigit byte = true
  cut : ∃ kind rest, (kind = 113 ∨ kind = 115) ∧
    text = ascii "gp" ++ kind :: (ns ++ dot :: (pid ++ underscore :: rest))

theorem hexUntil_append (sep : UInt8) (hsep : isHexDigit sep = false) {number : Bytes} (hne : number ≠ [])
    (hdigits : ∀ byte ∈ number, isHexDigit byte = true) (rest : Bytes) :
    hexUntil sep (number ++ sep :: rest) = some (number, rest) := by
  obtain ⟨htake, hdrop⟩ := takeWhile_digits hdigits hsep rest
  simp [hexUntil, hdrop, htake, hne]

/-- What the group of hexadecimal digits matches. -/
theorem hexUntil_some {sep : UInt8} {text number rest : Bytes} (h : hexUntil sep text = some (number, rest)) :
    number ≠ [] ∧ (∀ byte ∈ number, isHexDigit byte = true) ∧ text = number ++ sep :: rest := by
  unfold hexUntil at h
  split at h
  · cases h
  · rename_i byte rest' hdrop
    split at h
    · rename_i hparts
      obtain ⟨hne, rfl⟩ := hparts
      cases h
      refine ⟨hne, List.all_eq_true.mp List.all_takeWhile, ?_⟩
      rw [← hdrop, List.takeWhile_append_dropWhile]
    · cases h

/-- The match is every way to cut the text: there is at most one. -/
theorem owned_eq_some_iff (text ns pid : Bytes) : owned text = some (ns, pid) ↔ OwnedMatch text ns pid := by
  constructor
  · intro h
    unfold owned at h
    split at h
    · rename_i kind text
      split at h
      · rename_i hkind
        simp only [Option.bind_eq_bind, Option.bind_eq_some_iff] at h
        obtain ⟨⟨ns', middle⟩, hns, ⟨pid', rest⟩, hpid, hpair⟩ := h
        cases hpair
        obtain ⟨hns_ne, hns_digits, rfl⟩ := hexUntil_some hns
        obtain ⟨hpid_ne, hpid_digits, rfl⟩ := hexUntil_some hpid
        exact ⟨hns_ne, hpid_ne, hns_digits, hpid_digits, kind, rest, hkind, rfl⟩
      · cases h
    · cases h
  · rintro ⟨hns_ne, hpid_ne, hns_digits, hpid_digits, kind, rest, hkind, rfl⟩
    have hns := hexUntil_append dot (by decide) hns_ne hns_digits (pid ++ underscore :: rest)
    have hpid := hexUntil_append underscore (by decide) hpid_ne hpid_digits rest
    show (if kind = 113 ∨ kind = 115 then _ else _) = _
    rw [if_pos hkind, hns]
    show (hexUntil underscore _).bind _ = _
    rw [hpid]
    rfl

/-! ## The sweep of dead owners -/

/-- What `os.kill(pid, 0)` does: it raises `ProcessLookupError`, `PermissionError`, or nothing. -/
inductive Kill
  | lookupError
  | permissionError
  | sent

/-- The processes of this namespace, and those this one may signal. -/
structure Pids where
  life : ℕ → Life
  permitted : ℕ → Bool

def Pids.kill (pids : Pids) (pid : ℕ) : Kill :=
  if (pids.life pid).pidAlive then if pids.permitted pid then .sent else .permissionError else .lookupError

def alive : Kill → Bool
  | .lookupError => false
  | .permissionError => true
  | .sent => true

/-- Whether `sweep_dead_owners`, run in the namespace `ns`, removes a name it finds in `/dev/shm` or, with
`isDir`, in the temporary directory. -/
def sweepSelects (pids : Pids) (ns : ℕ) (isDir : Bool) (name : Bytes) : Bool :=
  match owned name with
  | none => false
  | some (owner, pid) =>
    if ofHex owner ≠ ns ∨ (isDir = true ∧ (ascii ".spill").isSuffixOf name = false) then false
    else if alive (pids.kill (ofHex pid)) then false
    else true

theorem alive_kill (pids : Pids) (pid : ℕ) : alive (pids.kill pid) = (pids.life pid).pidAlive := by
  unfold Pids.kill
  cases (pids.life pid).pidAlive <;> cases pids.permitted pid <;> rfl

/-! ## The bytes of a name -/

/-- What follows the tag: owner, counter, clock, and the rest. -/
def Creator.tagged (creator : Creator) (rest : Bytes) : Bytes :=
  hex creator.ns ++ dot :: (hex creator.pid ++ underscore ::
    (hex creator.n ++ underscore :: (hex (creator.nanos % 2 ^ 16) ++ rest)))

/-- `q` for a ring and its spills, `s` for a store and its segments. -/
def Object.kind : Object → UInt8
  | ring _ | spill _ _ _ => 113
  | store _ | segment _ _ _ => 115

/-- What an object adds to the name of its ring or store. -/
def Object.suffix : Object → Bytes
  | ring _ | store _ => []
  | spill _ pid n => 115 :: fileSpillName pid n
  | segment _ id dedicated => (if dedicated then 100 else 114) :: hex id

theorem tagged_append (creator : Creator) (rest rest' : Bytes) :
    creator.tagged rest ++ rest' = creator.tagged (rest ++ rest') := by
  simp [Creator.tagged]

theorem uniqueName_eq (tag : String) (creator : Creator) :
    uniqueName tag creator = slash :: (ascii tag ++ creator.tagged []) := by
  simp only [uniqueName, ownerTag, Creator.tagged, List.append_assoc, List.append_nil]
  rfl

theorem trimSlashes_gpq (creator : Creator) (rest : Bytes) :
    trimSlashes (uniqueName "gpq" creator) ++ rest = ascii "gp" ++ 113 :: creator.tagged rest := by
  have htrim : trimSlashes (uniqueName "gpq" creator) = ascii "gpq" ++ creator.tagged [] := by
    rw [uniqueName_eq]
    rfl
  rw [htrim, List.append_assoc, tagged_append, List.nil_append]
  rfl

theorem name_eq (object : Object) :
    object.name = slash :: (ascii "gp" ++ object.kind :: object.creator.tagged object.suffix) := by
  cases object with
  | ring creator => exact uniqueName_eq "gpq" creator
  | store creator => exact uniqueName_eq "gps" creator
  | spill creator pid n =>
    have htagged := tagged_append creator [] (115 :: fileSpillName pid n)
    rw [Object.name, spillObjectName, uniqueName_eq, Object.creator, Object.suffix,
      ← List.nil_append (115 :: _), ← htagged]
    simp only [fileSpillName, List.append_assoc]
    rfl
  | segment creator id dedicated =>
    have htagged := tagged_append creator [] ((if dedicated then 100 else 114) :: hex id)
    rw [Object.name, segName, uniqueName_eq, Object.creator, Object.suffix,
      ← List.nil_append (_ :: hex id), ← htagged]
    simp only [List.append_assoc]
    cases dedicated <;> rfl

theorem file_eq (object : Object) :
    object.file = ascii "gp" ++ object.kind :: object.creator.tagged object.suffix := by
  rw [Object.file, name_eq]
  rfl

/-- Owner and counter can be read back from a name. -/
theorem tagged_inj {first second : Creator} {rest rest' : Bytes} (h : first.tagged rest = second.tagged rest') :
    (first.ns = second.ns ∧ first.pid = second.pid ∧ first.n = second.n) ∧
      hex (first.nanos % 2 ^ 16) ++ rest = hex (second.nanos % 2 ^ 16) ++ rest' := by
  obtain ⟨hns, -, h⟩ := hex_sep_inj (by decide) (by decide) h
  obtain ⟨hpid, h⟩ := hex_underscore_inj h
  obtain ⟨hn, h⟩ := hex_underscore_inj h
  exact ⟨⟨hns, hpid, hn⟩, h⟩

/-- A counter value is used once in a process, and a pid once in a namespace. -/
def Once (objects : Set Object) : Prop :=
  ∀ first ∈ objects, ∀ second ∈ objects,
    first.creator.ns = second.creator.ns ∧ first.creator.pid = second.creator.pid ∧
      first.creator.n = second.creator.n → first.creator = second.creator

section Names

variable {objects : Set Object}

theorem ring_ne_store : (113 : UInt8) ≠ 115 := by decide

theorem eq_of_suffix {first second : Object} (hkind : first.kind = second.kind)
    (hcreator : first.creator = second.creator) (hsuffix : first.suffix = second.suffix) : first = second := by
  cases first with
  | ring creator =>
    cases second with
    | ring creator' => exact congrArg Object.ring hcreator
    | spill creator' pid n => cases hsuffix
    | store | segment => exact absurd hkind ring_ne_store
  | spill creator pid n =>
    cases second with
    | ring creator' => cases hsuffix
    | spill creator' pid' n' =>
      obtain ⟨rfl, rfl⟩ := fileSpillName_inj (List.cons.inj hsuffix).2
      exact congrArg (Object.spill · pid n) hcreator
    | store | segment => exact absurd hkind ring_ne_store
  | store creator =>
    cases second with
    | ring | spill => exact absurd hkind ring_ne_store.symm
    | store creator' => exact congrArg Object.store hcreator
    | segment creator' id dedicated => cases hsuffix
  | segment creator id dedicated =>
    cases second with
    | ring | spill => exact absurd hkind ring_ne_store.symm
    | store creator' => cases hsuffix
    | segment creator' id' dedicated' =>
      obtain ⟨hletter, hid⟩ := List.cons.inj hsuffix
      have hdedicated : dedicated = dedicated' := by
        cases dedicated <;> cases dedicated' <;> first | rfl | exact absurd hletter (by decide)
      rw [hdedicated, hex_injective hid]
      exact congrArg (Object.segment · id' dedicated') hcreator

/-- Objects made once have names of their own. -/
theorem name_injOn (honce : Once objects) : Set.InjOn Object.name objects := by
  intro first hfirst second hsecond hname
  rw [name_eq, name_eq, List.cons.injEq, List.append_cancel_left_eq, List.cons.injEq] at hname
  obtain ⟨-, hkind, htagged⟩ := hname
  obtain ⟨hsame, hrest⟩ := tagged_inj htagged
  have hcreator := honce first hfirst second hsecond hsame
  rw [hcreator, List.append_cancel_left_eq] at hrest
  exact eq_of_suffix hkind hcreator hrest

/-- The prefix of a ring is the start of its spills' names and of no other. -/
theorem isPrefixOf_iff (honce : Once objects) {creator : Creator} {object : Object}
    (hring : .ring creator ∈ objects) (hobject : object ∈ objects) :
    (trimSlashes (uniqueName "gpq" creator) ++ ascii "s").isPrefixOf object.file = true ↔
      ∃ pid n, object = .spill creator pid n := by
  rw [List.isPrefixOf_iff_prefix, trimSlashes_gpq, file_eq]
  constructor
  · rintro ⟨tail, hfile⟩
    rw [List.append_assoc, List.append_cancel_left_eq, List.cons_append, List.cons.injEq,
      tagged_append] at hfile
    obtain ⟨hkind, htagged⟩ := hfile
    obtain ⟨hsame, hrest⟩ := tagged_inj htagged
    have hcreator : creator = object.creator := honce _ hring _ hobject hsame
    rw [hcreator, List.append_cancel_left_eq] at hrest
    cases object with
    | ring creator' => cases hrest
    | spill creator' pid n => exact ⟨pid, n, congrArg (Object.spill · pid n) hcreator.symm⟩
    | store | segment => exact absurd hkind ring_ne_store
  · rintro ⟨pid, n, rfl⟩
    refine ⟨fileSpillName pid n, ?_⟩
    rw [List.append_assoc, List.cons_append, tagged_append]
    rfl

/-- `_OWNED` finds the namespace and the pid in every name. -/
theorem owned_tagged {kind : UInt8} (hkind : kind = 113 ∨ kind = 115) (creator : Creator) (rest : Bytes) :
    owned (ascii "gp" ++ kind :: creator.tagged rest) = some (hex creator.ns, hex creator.pid) := by
  rw [owned_eq_some_iff]
  exact ⟨hex_ne_nil _, hex_ne_nil _, fun _ ↦ isHexDigit_of_mem, fun _ ↦ isHexDigit_of_mem, kind, _, hkind,
    rfl⟩

/-- The sweep of a ring removes its spills and nothing of another ring. -/
theorem mem_prefixSweep (honce : Once objects) {creator : Creator} {object : Object}
    (hring : .ring creator ∈ objects) (hobject : object ∈ objects) (names listing : List Bytes) :
    object.file ∈ prefixSweep (uniqueName "gpq" creator) names listing ↔
      object.file ∈ listing ∧ object.file ∉ names.map trimSlashes ∧ ∃ pid n, object = .spill creator pid n := by
  rw [prefixSweep, List.mem_filter, Bool.and_eq_true, isPrefixOf_iff honce hring hobject]
  simp only [Bool.not_eq_true', List.any_eq_false, decide_eq_true_eq, List.mem_map, not_exists, not_and]
  exact and_congr_right fun _ ↦ and_comm

theorem sweepSelects_tagged (pids : Pids) (ns : ℕ) (isDir : Bool) {kind : UInt8}
    (hkind : kind = 113 ∨ kind = 115) (creator : Creator) (rest : Bytes)
    (hdir : isDir = true → (ascii ".spill").isSuffixOf (ascii "gp" ++ kind :: creator.tagged rest) = true) :
    sweepSelects pids ns isDir (ascii "gp" ++ kind :: creator.tagged rest) = true ↔
      creator.ns = ns ∧ pids.life creator.pid = .reaped := by
  have hsuffix : ¬ (isDir = true ∧
      (ascii ".spill").isSuffixOf (ascii "gp" ++ kind :: creator.tagged rest) = false) := by
    rintro ⟨htrue, hfalse⟩
    rw [hdir htrue] at hfalse
    cases hfalse
  simp only [sweepSelects, owned_tagged hkind, ofHex_hex, alive_kill, hsuffix, or_false]
  by_cases hns : creator.ns = ns
  · rw [if_neg (not_not.mpr hns)]
    cases hlife : pids.life creator.pid <;> simp [hns, Life.pidAlive]
  · rw [if_pos hns]
    simp [hns]

/-- The namespace and the pid that `_OWNED` recovers. -/
def ownerOf (file : Bytes) : Option (ℕ × ℕ) :=
  (owned file).map fun groups ↦ (ofHex groups.1, ofHex groups.2)

theorem ownerOf_tagged {kind : UInt8} (hkind : kind = 113 ∨ kind = 115) (creator : Creator) (rest : Bytes) :
    ownerOf (ascii "gp" ++ kind :: creator.tagged rest) = some (creator.ns, creator.pid) := by
  rw [ownerOf, owned_tagged hkind, Option.map_some, ofHex_hex, ofHex_hex]

theorem kind_cases (object : Object) : object.kind = 113 ∨ object.kind = 115 := by
  cases object <;> simp [Object.kind]

/-- The names of these objects are all different, the prefix sweep of a ring takes its spills and nothing else,
and every name, and that of every spill directory, tells the owner, so that the sweep of dead owners removes it
exactly if the owner belongs to this namespace and is dead. -/
structure NamesIdentify (objects : Set Object) (pids : Pids) (ns : ℕ) : Prop where
  distinct : Set.InjOn Object.name objects
  swept : ∀ creator, .ring creator ∈ objects → ∀ object ∈ objects, ∀ names listing,
    object.file ∈ prefixSweep (uniqueName "gpq" creator) names listing ↔
      object.file ∈ listing ∧ object.file ∉ names.map trimSlashes ∧ ∃ pid n, object = .spill creator pid n
  owner : ∀ object : Object, ownerOf object.file = some (object.creator.ns, object.creator.pid)
  dir_owner : ∀ creator, ownerOf (spillDir (uniqueName "gpq" creator)) = some (creator.ns, creator.pid)
  selected : ∀ object ∈ objects, sweepSelects pids ns false object.file = true ↔
    object.creator.ns = ns ∧ pids.life object.creator.pid ≠ .live
  dir_selected : ∀ creator, .ring creator ∈ objects →
    (sweepSelects pids ns true (spillDir (uniqueName "gpq" creator)) = true ↔
      creator.ns = ns ∧ pids.life creator.pid ≠ .live)

/-- The file of an object is selected exactly if its owner is of this namespace and has been reaped. -/
theorem sweepSelects_file (pids : Pids) (ns : ℕ) (object : Object) :
    sweepSelects pids ns false object.file = true ↔
      object.creator.ns = ns ∧ pids.life object.creator.pid = .reaped := by
  rw [file_eq]
  exact sweepSelects_tagged _ _ _ (kind_cases object) _ _ (by rintro ⟨⟩)

theorem spillDir_eq (creator : Creator) :
    spillDir (uniqueName "gpq" creator) = ascii "gp" ++ 113 :: creator.tagged (ascii ".spill") := by
  rw [spillDir, trimSlashes_gpq]

theorem sweepSelects_spillDir (pids : Pids) (ns : ℕ) (creator : Creator) :
    sweepSelects pids ns true (spillDir (uniqueName "gpq" creator)) = true ↔
      creator.ns = ns ∧ pids.life creator.pid = .reaped := by
  have hspill : (ascii ".spill").isSuffixOf (spillDir (uniqueName "gpq" creator)) = true :=
    List.isSuffixOf_iff_suffix.mpr (List.suffix_append _ _)
  rw [spillDir_eq] at hspill ⊢
  exact sweepSelects_tagged _ _ _ (.inl rfl) _ _ fun _ ↦ hspill

/-- Dead is gone, unless nobody has waited for the process. -/
theorem reaped_iff {life : Life} (h : life ≠ .killed) : life = .reaped ↔ life ≠ .live := by
  cases life <;> simp at h ⊢

/-- The names identify their objects and owners exactly if no owner of this namespace has been killed and not
waited for. -/
theorem names_identify_iff (objects : Set Object) (honce : Once objects) (pids : Pids) (ns : ℕ) :
    NamesIdentify objects pids ns ↔
      ∀ object ∈ objects, object.creator.ns = ns → pids.life object.creator.pid ≠ .killed := by
  constructor
  · intro h object hobject hns hkilled
    have hselected := (h.selected object hobject).mpr ⟨hns, by rw [hkilled]; decide⟩
    rw [sweepSelects_file, hkilled] at hselected
    cases hselected.2
  · intro hreaped
    exact {
      distinct := name_injOn honce
      swept := fun creator hring object hobject ↦ mem_prefixSweep honce hring hobject
      owner := fun object ↦ by
        rw [file_eq]
        exact ownerOf_tagged (kind_cases object) _ _
      dir_owner := fun creator ↦ by
        rw [spillDir_eq]
        exact ownerOf_tagged (.inl rfl) _ _
      selected := fun object hobject ↦ by
        rw [sweepSelects_file]
        exact and_congr_right fun hns ↦ reaped_iff (hreaped object hobject hns)
      dir_selected := fun creator hring ↦ by
        rw [sweepSelects_spillDir]
        exact and_congr_right fun hns ↦ reaped_iff (hreaped _ hring hns) }

theorem one_lt_word : 1 < 2 ^ 64 := by decide

theorem one_lt_half : 1 < 2 ^ 32 := by decide

def firstCreator : Creator := ⟨1, 1, 0, 171, one_lt_word, one_lt_half, zero_lt_word⟩

def secondCreator : Creator := ⟨1, 1, 1, 171, one_lt_word, one_lt_half, one_lt_word⟩

theorem once_two : Once {object | object.creator = firstCreator ∨ object.creator = secondCreator} := by
  rintro first (hfirst | hfirst) second (hsecond | hsecond) ⟨-, -, hn⟩ <;> rw [hfirst, hsecond] at *
  · exact absurd hn (by decide)
  · exact absurd hn (by decide)

/-- The objects of two names, whose owner is gone. -/
theorem names_identify_two :
    NamesIdentify {object | object.creator = firstCreator ∨ object.creator = secondCreator}
      ⟨fun _ ↦ .reaped, fun _ ↦ true⟩ 1 :=
  (names_identify_iff _ once_two ⟨fun _ ↦ .reaped, fun _ ↦ true⟩ 1).mpr fun _ _ _ ↦ by simp

/-- What a killed owner left stays as long as nobody has waited for it. -/
theorem not_names_identify :
    ¬∀ objects : Set Object, Once objects → ∀ (pids : Pids) (ns : ℕ), NamesIdentify objects pids ns := by
  intro hall
  have hselected := (hall _ once_two ⟨fun _ ↦ .killed, fun _ ↦ true⟩ 1).selected (.segment secondCreator 3 true)
    (.inr rfl)
  have hselects := hselected.mpr ⟨rfl, by simp⟩
  revert hselects
  decide

end Names

end GpuPipe.Sys
