import Mathlib.Algebra.GroupWithZero.Nat
import Mathlib.Algebra.Order.BigOperators.Group.List
import GpuPipe.Lifecycle.Start
import GpuPipe.Ring.Chain
import GpuPipe.Store.Registered

/-!
# What a start takes of shared memory

`start` sizes the payload store, and then the ring of one edge after the other, by what `/dev/shm` has free at
that moment, and reserves whole pages: for the store its control block, for a ring all its bytes. Between any
two of these steps other processes take memory and give memory back. What is reserved for the store's segments
later on is up to the store's limit.
-/

namespace GpuPipe.Footprint

open GpuPipe.Ring (RingQueue Header align8 hdr)
open GpuPipe.Store (PayloadStore)
open GpuPipe.Start (Job capacity failsEarly)

/-- The settings of the environment, those in MiB as the bytes they come to. -/
structure Env where
  /-- `PIPE_STORE` is not 0. -/
  store : Bool
  ringMb : Option ℕ
  storeMb : Option ℕ

def ctlBytes : ℕ := 4096

def ringBytes (env : Env) (maxsize : ℕ) : ℕ :=
  match env.ringMb with
  | some bytes => bytes
  | none => if maxsize = 0 then 8 * 2 ^ 20 else min (max (maxsize * (64 * 1024)) (2 ^ 20)) (16 * 2 ^ 20)

/-- Where `shm_free_bytes` has no answer, a ring is as long as it would like to be. -/
def edgeRingBytes (env : Env) (free : Option ℕ) (maxsize nEdges : ℕ) : ℕ :=
  let want := ringBytes env maxsize
  match free, env.ringMb with
  | some free, none => max (64 * 1024) (min want (free / 4 / max 1 nEdges))
  | _, _ => want

/-- `limit_bytes or _default_limit()` -/
def defaultLimit (env : Env) (free : Option ℕ) : ℕ :=
  match env.storeMb, free with
  | some bytes, _ => bytes
  | none, none => 2 * 2 ^ 30
  | none, some free => min (free / 2) (16 * 2 ^ 30)

def segBytes (limit : ℕ) : ℕ := min (64 * 2 ^ 20) (max (2 ^ 20) (limit / 8))

theorem segBytes_le (limit : ℕ) : segBytes limit ≤ 2 ^ 40 := (min_le_left _ _).trans (by decide)

def newStore (limit : ℕ) : PayloadStore := .new limit (segBytes limit) (segBytes_le limit)

/-- `posix_fallocate` reserves whole pages. -/
def pages (page len : ℕ) : ℕ := (len + (page - 1)) / page * page

/-- Where `start` is: about to see what is free for the store, to make it, to see what is free for a ring, or to
make it. -/
inductive Pc
  | limiting
  | storing (limit : ℕ)
  | sizing
  | making (bytes : ℕ)
  | finished
  | failed
  deriving DecidableEq

structure State where
  /-- The bytes that are free in `/dev/shm`. -/
  free : ℕ
  /-- What other processes have given back and taken so far. -/
  given : ℕ
  taken : ℕ
  pc : Pc
  store : Option PayloadStore
  rings : List Header

inductive Action
  | advance
  | give (bytes : ℕ)
  | take (bytes : ℕ)

structure Config where
  env : Env
  page : ℕ
  jobs : List Job
  creator : ℕ → Sys.Creator

namespace Config

variable (config : Config)

def ring (state : State) (bytes : ℕ) : Header :=
  RingQueue.new (capacity config.jobs state.rings.length) bytes none (config.creator state.rings.length)

/-- One step of `start`. A store that cannot be made is done without, a ring is not. -/
def advance (state : State) : Option State :=
  match state.pc with
  | .limiting =>
    if config.env.store then some { state with pc := .storing (defaultLimit config.env (some state.free)) }
    else some { state with pc := .sizing }
  | .storing limit =>
    if pages config.page ctlBytes ≤ state.free then
      some { state with
        free := state.free - pages config.page ctlBytes
        pc := .sizing
        store := some (newStore limit) }
    else some { state with pc := .sizing }
  | .sizing =>
    if state.rings.length < config.jobs.length then
      some { state with
        pc := .making (edgeRingBytes config.env (some state.free) (capacity config.jobs state.rings.length)
          config.jobs.length) }
    else some { state with pc := .finished }
  | .making bytes =>
    if pages config.page (config.ring state bytes).mapLen ≤ state.free then
      some { state with
        free := state.free - pages config.page (config.ring state bytes).mapLen
        pc := .sizing
        rings := state.rings ++ [config.ring state bytes] }
    else some { state with pc := .failed }
  | .finished | .failed => none

def step (state : State) : Action → Option State
  | .advance => config.advance state
  | .give bytes => some { state with free := state.free + bytes, given := state.given + bytes }
  | .take bytes =>
    if bytes ≤ state.free then some { state with free := state.free - bytes, taken := state.taken + bytes } else none

/-- A start with so much memory free. -/
def machine (free : ℕ) : Machine State Action where
  start := ⟨free, 0, 0, .limiting, none, []⟩
  step := config.step

/-- What the control block of the store and the shortest rings take. -/
def least : ℕ :=
  pages config.page ctlBytes + config.jobs.length * pages config.page (hdr + 64 * 1024)

end Config

/-- What the store and the rings made so far have reserved. -/
def State.reserved (state : State) (page : ℕ) : ℕ :=
  (if state.store.isSome then pages page ctlBytes else 0) +
    (state.rings.map fun ring ↦ pages page ring.mapLen).sum

/-- What goes wrong outside, for `Start.start`. -/
def State.failure (state : State) : Option Start.Failure :=
  if state.pc = .failed then some (.ring state.rings.length) else none

/-- Other processes take so much at most. -/
def takesAtMost (bytes : ℕ) (state : State) : Action → Bool
  | .take more => state.taken + more ≤ bytes
  | _ => true

/-! ## Pages -/

section Pages

variable {page len len' : ℕ}

theorem le_pages (hpage : 0 < page) : len ≤ pages page len := by
  have hdiv := Nat.div_add_mod' (len + (page - 1)) page
  have hmod := Nat.mod_lt (len + (page - 1)) hpage
  unfold pages
  omega

theorem pages_le (page len : ℕ) : pages page len ≤ len + (page - 1) := Nat.div_mul_le_self _ _

theorem pages_mono (h : len ≤ len') : pages page len ≤ pages page len' :=
  Nat.mul_le_mul_right _ (Nat.div_le_div_right (Nat.add_le_add_right h _))

/-- A ring that is longer than the shortest one takes no more than the excess in addition: the shortest ring
and its header take a page more than the header would alone, and more. -/
theorem pages_ring_le (hpage : page ∣ 64 * 1024) (bytes : ℕ) :
    pages page (hdr + align8 (max bytes (64 * 1024))) ≤ pages page (hdr + 64 * 1024) + bytes := by
  rcases Nat.le_total bytes (64 * 1024) with hshort | hlong
  · rw [Nat.max_eq_right hshort]
    exact Nat.le_add_right _ _
  · obtain ⟨count, hcount⟩ := hpage
    have hpos : 0 < page := by
      by_contra hzero
      rw [Nat.eq_zero_of_not_pos hzero, Nat.zero_mul] at hcount
      omega
    have hround : align8 bytes ≤ bytes + 7 := Nat.div_mul_le_self _ _
    -- with pages of 64 KiB the header has one to itself
    have hleast : hdr + page + 6 ≤ pages page (hdr + 64 * 1024) := by
      rcases Nat.lt_or_ge count 2 with hone | htwo
      · have hcount1 : count = 1 := by
          interval_cases count
          · omega
          · rfl
        rw [hcount1, Nat.mul_one] at hcount
        rw [← hcount]
        decide
      · have hsmall : page * 2 ≤ 64 * 1024 := hcount ▸ Nat.mul_le_mul_left page htwo
        have hle : hdr + 64 * 1024 ≤ pages page (hdr + 64 * 1024) := le_pages hpos
        omega
    calc
      pages page (hdr + align8 (max bytes (64 * 1024))) ≤ hdr + align8 (max bytes (64 * 1024)) + (page - 1) :=
        pages_le _ _
      _ = hdr + align8 bytes + (page - 1) := by rw [Nat.max_eq_left hlong]
      _ ≤ pages page (hdr + 64 * 1024) + bytes := by omega

end Pages

/-! ## What a step can do -/

variable {config : Config} {free others : ℕ} {state next : State} {action : Action}

namespace Config

variable (config)

/-- What of so many bytes every edge may have. -/
def share (total : ℕ) : ℕ := total / 4 / max 1 config.jobs.length

/-- What the ring of an edge takes at most while so many bytes are free. -/
def ringShare (total : ℕ) : ℕ := pages config.page (hdr + 64 * 1024) + config.share total

inductive Steps (state : State) : Action → State → Prop
  | give (bytes : ℕ) :
      Steps state (.give bytes) { state with free := state.free + bytes, given := state.given + bytes }
  | take (bytes : ℕ) (hle : bytes ≤ state.free) :
      Steps state (.take bytes) { state with free := state.free - bytes, taken := state.taken + bytes }
  | noStore (hpc : state.pc = .limiting) (hstore : config.env.store = false) :
      Steps state .advance { state with pc := .sizing }
  | limit (hpc : state.pc = .limiting) (hstore : config.env.store = true) :
      Steps state .advance { state with pc := .storing (defaultLimit config.env (some state.free)) }
  | store (limit : ℕ) (hpc : state.pc = .storing limit) (hle : pages config.page ctlBytes ≤ state.free) :
      Steps state .advance { state with
        free := state.free - pages config.page ctlBytes
        pc := .sizing
        store := some (newStore limit) }
  | storeFails (limit : ℕ) (hpc : state.pc = .storing limit) (hlt : state.free < pages config.page ctlBytes) :
      Steps state .advance { state with pc := .sizing }
  | size (hpc : state.pc = .sizing) (hlt : state.rings.length < config.jobs.length) :
      Steps state .advance { state with
        pc := .making (edgeRingBytes config.env (some state.free) (capacity config.jobs state.rings.length)
          config.jobs.length) }
  | finish (hpc : state.pc = .sizing) (hge : config.jobs.length ≤ state.rings.length) :
      Steps state .advance { state with pc := .finished }
  | make (bytes : ℕ) (hpc : state.pc = .making bytes)
      (hle : pages config.page (config.ring state bytes).mapLen ≤ state.free) :
      Steps state .advance { state with
        free := state.free - pages config.page (config.ring state bytes).mapLen
        pc := .sizing
        rings := state.rings ++ [config.ring state bytes] }
  | makeFails (bytes : ℕ) (hpc : state.pc = .making bytes)
      (hlt : state.free < pages config.page (config.ring state bytes).mapLen) :
      Steps state .advance { state with pc := .failed }

theorem step_cases (h : config.step state action = some next) : config.Steps state action next := by
  cases action with
  | give bytes =>
    cases h
    exact .give bytes
  | take bytes =>
    simp only [step] at h
    split at h
    · cases h
      exact .take bytes ‹_›
    · cases h
  | advance =>
    simp only [step, advance] at h
    cases hpc : state.pc with
    | limiting =>
      rw [hpc] at h
      cases hstore : config.env.store with
      | false =>
        rw [hstore] at h
        cases h
        exact .noStore hpc hstore
      | true =>
        rw [hstore] at h
        cases h
        exact .limit hpc hstore
    | storing limit =>
      simp only [hpc] at h
      split at h
      · cases h
        exact .store limit hpc ‹_›
      · cases h
        exact .storeFails limit hpc (Nat.lt_of_not_le ‹_›)
    | sizing =>
      simp only [hpc] at h
      split at h
      · cases h
        exact .size hpc ‹_›
      · cases h
        exact .finish hpc (Nat.le_of_not_lt ‹_›)
    | making bytes =>
      simp only [hpc] at h
      split at h
      · cases h
        exact .make bytes hpc ‹_›
      · cases h
        exact .makeFails bytes hpc (Nat.lt_of_not_le ‹_›)
    | finished | failed =>
      rw [hpc] at h
      cases h

theorem share_mono {total total' : ℕ} (h : total ≤ total') : config.share total ≤ config.share total' :=
  Nat.div_le_div_right (Nat.div_le_div_right h)

/-- All shares together are a quarter at most. -/
theorem length_mul_share_le (total : ℕ) : config.jobs.length * config.share total ≤ total / 4 :=
  calc
    config.jobs.length * config.share total ≤ max 1 config.jobs.length * config.share total :=
      Nat.mul_le_mul_right _ (Nat.le_max_right _ _)
    _ ≤ total / 4 := Nat.mul_div_le _ _

/-- What all rings may take together, with the control block: the least there is and a quarter of what was free. -/
theorem length_mul_ringShare_le (total : ℕ) :
    pages config.page ctlBytes + config.jobs.length * config.ringShare total ≤ config.least + total / 4 := by
  have hshare := config.length_mul_share_le total
  rw [ringShare, Nat.mul_add, least]
  omega

end Config

theorem edgeRingBytes_le {env : Env} (hring : env.ringMb = none) (free maxsize nEdges : ℕ) :
    edgeRingBytes env (some free) maxsize nEdges ≤ max (free / 4 / max 1 nEdges) (64 * 1024) := by
  simp only [edgeRingBytes, hring]
  rw [Nat.max_comm]
  exact max_le_max_right _ (Nat.min_le_right _ _)

/-- The ring of an edge stays within its share. -/
theorem pages_ring_le_ringShare (hpage : config.page ∣ 64 * 1024) {bytes total : ℕ}
    (hbytes : bytes ≤ max (config.share total) (64 * 1024)) :
    pages config.page (config.ring state bytes).mapLen ≤ config.ringShare total := by
  have hmax : max bytes (64 * 1024) ≤ max (config.share total) (64 * 1024) := max_le hbytes (le_max_right _ _)
  have halign : align8 (max bytes (64 * 1024)) ≤ align8 (max (config.share total) (64 * 1024)) :=
    Nat.mul_le_mul_right _ (Nat.div_le_div_right (Nat.add_le_add_right hmax _))
  calc
    pages config.page (config.ring state bytes).mapLen ≤
        pages config.page (hdr + align8 (max bytes (64 * 1024))) := pages_mono (RingQueue.mapLen_le _ _ _ _)
    _ ≤ pages config.page (hdr + align8 (max (config.share total) (64 * 1024))) :=
      pages_mono (Nat.add_le_add_left halign _)
    _ ≤ config.ringShare total := pages_ring_le hpage _

theorem defaultLimit_le {env : Env} (hstore : env.storeMb = none) (free : ℕ) :
    defaultLimit env (some free) ≤ free / 2 := by
  simp only [defaultLimit, hstore]
  exact Nat.min_le_left _ _

/-! ## What is reserved -/

def Pc.unmade : Pc → Bool
  | .limiting | .storing _ => true
  | _ => false

/-- Every byte is accounted for, and no ring takes more than its share of what was free at the start or has been
given back since. -/
structure Inv (config : Config) (free : ℕ) (state : State) : Prop where
  account : state.free + state.reserved config.page + state.taken = free + state.given
  fair : ∀ ring ∈ state.rings, pages config.page ring.mapLen ≤ config.ringShare (free + state.given)
  making : ∀ bytes, state.pc = .making bytes → state.rings.length < config.jobs.length ∧
    bytes ≤ max (config.share (free + state.given)) (64 * 1024)
  length_le : state.rings.length ≤ config.jobs.length
  maxsizes : state.rings.map Header.maxsize = (List.range state.rings.length).map (capacity config.jobs)
  limiting : ∀ limit, state.pc = .storing limit → config.env.storeMb = none → limit ≤ (free + state.given) / 2
  limit : ∀ store, state.store = some store → config.env.storeMb = none →
    store.limit ≤ (free + state.given) / 2
  unmade : state.pc.unmade = true → state.store = none ∧ state.rings = []
  finished : state.pc = .finished → state.rings.length = config.jobs.length

namespace Inv

theorem init (config : Config) (free : ℕ) : Inv config free (config.machine free).start where
  account := rfl
  fair _ hring := absurd hring List.not_mem_nil
  making := by rintro _ ⟨⟩
  length_le := Nat.zero_le _
  maxsizes := rfl
  limiting := by rintro _ ⟨⟩
  limit := by rintro _ ⟨⟩
  unmade _ := ⟨rfl, rfl⟩
  finished := by rintro ⟨⟩

theorem free_le (h : Inv config free state) : state.free ≤ free + state.given := by
  have haccount := h.account
  omega

/-- `start` goes on without making anything. -/
theorem goto (h : Inv config free state) {pc : Pc}
    (hmaking : ∀ bytes, pc = .making bytes → state.rings.length < config.jobs.length ∧
      bytes ≤ max (config.share (free + state.given)) (64 * 1024))
    (hlimiting : ∀ limit, pc = .storing limit → config.env.storeMb = none → limit ≤ (free + state.given) / 2)
    (hunmade : pc.unmade = true → state.pc.unmade = true)
    (hfinished : pc = .finished → config.jobs.length ≤ state.rings.length) :
    Inv config free { state with pc := pc } where
  account := h.account
  fair := h.fair
  making := hmaking
  length_le := h.length_le
  maxsizes := h.maxsizes
  limiting := hlimiting
  limit := h.limit
  unmade hpc := h.unmade (hunmade hpc)
  finished hpc := Nat.le_antisymm h.length_le (hfinished hpc)

/-- More has been given back. -/
theorem give (h : Inv config free state) (bytes : ℕ) :
    Inv config free { state with free := state.free + bytes, given := state.given + bytes } := by
  have hmore : free + state.given ≤ free + (state.given + bytes) := Nat.add_le_add_left (Nat.le_add_right _ _) _
  have hshare := config.share_mono hmore
  have hhalf : (free + state.given) / 2 ≤ (free + (state.given + bytes)) / 2 := Nat.div_le_div_right hmore
  constructor
  · have haccount := h.account
    change state.free + bytes + state.reserved config.page + state.taken = free + (state.given + bytes)
    omega
  · exact fun ring hring ↦ (h.fair ring hring).trans (Nat.add_le_add_left hshare _)
  · intro more hpc
    obtain ⟨hlt, hle⟩ := h.making more hpc
    exact ⟨hlt, hle.trans (max_le_max_right _ hshare)⟩
  · exact h.length_le
  · exact h.maxsizes
  · exact fun limit hpc hdefault ↦ (h.limiting limit hpc hdefault).trans hhalf
  · exact fun store hstore hdefault ↦ (h.limit store hstore hdefault).trans hhalf
  · exact h.unmade
  · exact h.finished

theorem take (h : Inv config free state) {bytes : ℕ} (hle : bytes ≤ state.free) :
    Inv config free { state with free := state.free - bytes, taken := state.taken + bytes } := by
  have haccount : state.free - bytes + state.reserved config.page + (state.taken + bytes) = free + state.given := by
    have hbefore := h.account
    omega
  exact ⟨haccount, h.fair, h.making, h.length_le, h.maxsizes, h.limiting, h.limit, h.unmade, h.finished⟩

theorem store (h : Inv config free state) {limit : ℕ} (hpc : state.pc = .storing limit)
    (hle : pages config.page ctlBytes ≤ state.free) :
    Inv config free { state with
      free := state.free - pages config.page ctlBytes, pc := .sizing, store := some (newStore limit) } := by
  obtain ⟨hstore, hrings⟩ := h.unmade (by rw [hpc]; rfl)
  constructor
  · have haccount := h.account
    simp only [State.reserved, hstore, Option.isSome_none, Bool.false_eq_true, if_false] at haccount
    simp only [State.reserved, Option.isSome_some, if_true]
    omega
  · exact h.fair
  · rintro _ ⟨⟩
  · exact h.length_le
  · exact h.maxsizes
  · rintro _ ⟨⟩
  · rintro _ ⟨⟩
    exact h.limiting limit hpc
  · rintro ⟨⟩
  · rintro ⟨⟩

theorem make (h : Inv config free state) (hpage : config.page ∣ 64 * 1024) {bytes : ℕ}
    (hpc : state.pc = .making bytes)
    (hle : pages config.page (config.ring state bytes).mapLen ≤ state.free) :
    Inv config free { state with
      free := state.free - pages config.page (config.ring state bytes).mapLen
      pc := .sizing
      rings := state.rings ++ [config.ring state bytes] } := by
  obtain ⟨hlt, hbytes⟩ := h.making bytes hpc
  constructor
  · have haccount := h.account
    simp only [State.reserved, List.map_append, List.sum_append, List.map_cons, List.map_nil, List.sum_cons,
      List.sum_nil] at haccount ⊢
    omega
  · intro ring hring
    rcases List.mem_append.mp hring with hold | hnew
    · exact h.fair ring hold
    · rw [List.mem_singleton.mp hnew]
      exact pages_ring_le_ringShare hpage hbytes
  · rintro _ ⟨⟩
  · rw [List.length_append, List.length_singleton]
    exact hlt
  · rw [List.map_append, h.maxsizes, List.length_append, List.length_singleton, List.range_succ, List.map_append]
    rfl
  · rintro _ ⟨⟩
  · exact h.limit
  · rintro ⟨⟩
  · rintro ⟨⟩

/-- Neither `start` nor another process breaks the account. -/
theorem step (h : Inv config free state) (hpage : config.page ∣ 64 * 1024) (hring : config.env.ringMb = none)
    (hnext : config.step state action = some next) : Inv config free next := by
  cases config.step_cases hnext with
  | give bytes => exact h.give bytes
  | take bytes hle => exact h.take hle
  | noStore | storeFails | makeFails =>
    exact h.goto (by rintro _ ⟨⟩) (by rintro _ ⟨⟩) (by rintro ⟨⟩) (by rintro ⟨⟩)
  | limit hpc =>
    refine h.goto (by rintro _ ⟨⟩) ?_ (fun _ ↦ by rw [hpc]; rfl) (by rintro ⟨⟩)
    rintro _ ⟨⟩ hdefault
    exact (defaultLimit_le hdefault _).trans (Nat.div_le_div_right h.free_le)
  | store limit hpc hle => exact h.store hpc hle
  | size hpc hlt =>
    refine h.goto ?_ (by rintro _ ⟨⟩) (by rintro ⟨⟩) (by rintro ⟨⟩)
    rintro _ ⟨⟩
    have hread := edgeRingBytes_le hring state.free (capacity config.jobs state.rings.length) config.jobs.length
    exact ⟨hlt, hread.trans (max_le_max_right _ (config.share_mono h.free_le))⟩
  | finish hpc hge => exact h.goto (by rintro _ ⟨⟩) (by rintro _ ⟨⟩) (by rintro ⟨⟩) fun _ ↦ hge
  | make bytes hpc hle => exact h.make hpage hpc hle

/-- The rings made so far have taken their shares at most. -/
theorem reserved_le (h : Inv config free state) :
    state.reserved config.page ≤
      pages config.page ctlBytes + state.rings.length * config.ringShare (free + state.given) := by
  have hsum : (state.rings.map fun ring ↦ pages config.page ring.mapLen).sum ≤
      state.rings.length * config.ringShare (free + state.given) := by
    have hle := List.sum_le_card_nsmul (state.rings.map fun ring ↦ pages config.page ring.mapLen)
      (config.ringShare (free + state.given)) (List.forall_mem_map.mpr h.fair)
    rwa [List.length_map, Nat.nsmul_eq_mul] at hle
  unfold State.reserved
  split <;> omega

/-- With the rings still to be made, it comes to a quarter and the least there is. -/
theorem reserved_add_le (h : Inv config free state) (more : ℕ)
    (hmore : state.rings.length + more ≤ config.jobs.length) :
    state.reserved config.page + more * config.ringShare (free + state.given) ≤
      config.least + (free + state.given) / 4 :=
  calc
    state.reserved config.page + more * config.ringShare (free + state.given) ≤
        pages config.page ctlBytes + state.rings.length * config.ringShare (free + state.given) +
          more * config.ringShare (free + state.given) := Nat.add_le_add_right h.reserved_le _
    _ = pages config.page ctlBytes + (state.rings.length + more) * config.ringShare (free + state.given) := by ring
    _ ≤ pages config.page ctlBytes + config.jobs.length * config.ringShare (free + state.given) :=
      Nat.add_le_add_left (Nat.mul_le_mul_right _ hmore) _
    _ ≤ config.least + (free + state.given) / 4 := config.length_mul_ringShare_le _

end Inv

theorem inv_of_reachable (hpage : config.page ∣ 64 * 1024) (hring : config.env.ringMb = none)
    (h : (config.machine free).Reachable state) : Inv config free state :=
  h.invariant (Inv config free) (.init config free) fun _ _ _ hstate hstep ↦ hstate.step hpage hring hstep

/-! ## A start that fits -/

/-- Other processes have left enough, and nothing has failed. -/
structure Fitting (config : Config) (others : ℕ) (state : State) : Prop where
  taken : state.taken ≤ others
  succeeds : state.pc ≠ .failed
  storing : ∀ limit, state.pc = .storing limit → config.env.store = true
  stored : state.pc.unmade = false → state.store.isSome = config.env.store

theorem fitting_init (config : Config) (free others : ℕ) : Fitting config others (config.machine free).start where
  taken := Nat.zero_le _
  succeeds := by rintro ⟨⟩
  storing := by rintro _ ⟨⟩
  stored := by rintro ⟨⟩

namespace Inv

/-- There is room for the control block of the store. -/
theorem room_store (h : Inv config free state) (htaken : state.taken ≤ others)
    (hroom : 4 * (config.least + others) ≤ 3 * free) {limit : ℕ} (hpc : state.pc = .storing limit) :
    pages config.page ctlBytes ≤ state.free := by
  obtain ⟨hstore, hrings⟩ := h.unmade (by rw [hpc]; rfl)
  have haccount := h.account
  have hleast : pages config.page ctlBytes ≤ config.least := Nat.le_add_right _ _
  simp only [State.reserved, hstore, hrings, Option.isSome_none, Bool.false_eq_true, if_false, List.map_nil,
    List.sum_nil] at haccount
  omega

/-- There is room for the next ring: with it, the rings so far have taken a quarter and the least there is. -/
theorem room_ring (h : Inv config free state) (hpage : config.page ∣ 64 * 1024) (htaken : state.taken ≤ others)
    (hroom : 4 * (config.least + others) ≤ 3 * free) {bytes : ℕ} (hpc : state.pc = .making bytes) :
    pages config.page (config.ring state bytes).mapLen ≤ state.free := by
  obtain ⟨hlt, hbytes⟩ := h.making bytes hpc
  have hring : pages config.page (config.ring state bytes).mapLen ≤ config.ringShare (free + state.given) :=
    pages_ring_le_ringShare hpage hbytes
  have hall := h.reserved_add_le 1 hlt
  have haccount := h.account
  rw [Nat.one_mul] at hall
  omega

/-- As long as the others take no more than their part, nothing that `start` reserves fails. -/
theorem fitting (h : Inv config free state) (hpage : config.page ∣ 64 * 1024)
    (hroom : 4 * (config.least + others) ≤ 3 * free) (hfit : Fitting config others state)
    (hallowed : takesAtMost others state action = true) (hnext : config.step state action = some next) :
    Fitting config others next := by
  cases config.step_cases hnext with
  | give => exact ⟨hfit.taken, hfit.succeeds, hfit.storing, hfit.stored⟩
  | take bytes hle => exact ⟨of_decide_eq_true hallowed, hfit.succeeds, hfit.storing, hfit.stored⟩
  | noStore hpc hstore =>
    obtain ⟨hnone, -⟩ := h.unmade (by rw [hpc]; rfl)
    exact ⟨hfit.taken, by rintro ⟨⟩, by rintro _ ⟨⟩, fun _ ↦ by rw [hnone, hstore]; rfl⟩
  | limit hpc hstore => exact ⟨hfit.taken, by rintro ⟨⟩, fun _ _ ↦ hstore, by rintro ⟨⟩⟩
  | store limit hpc =>
    exact ⟨hfit.taken, by rintro ⟨⟩, by rintro _ ⟨⟩, fun _ ↦ (hfit.storing limit hpc).symm⟩
  | storeFails limit hpc hlt =>
    exact absurd (h.room_store hfit.taken hroom hpc) (Nat.not_le.mpr hlt)
  | size hpc | finish hpc | make _ hpc =>
    exact ⟨hfit.taken, by rintro ⟨⟩, by rintro _ ⟨⟩, fun _ ↦ hfit.stored (by rw [hpc]; rfl)⟩
  | makeFails bytes hpc hlt =>
    exact absurd (h.room_ring hpage hfit.taken hroom hpc) (Nat.not_le.mpr hlt)

end Inv

/-- How many steps `start` has left at most. -/
def Config.left (config : Config) (state : State) : ℕ :=
  match state.pc with
  | .limiting => 2 * config.jobs.length + 3
  | .storing _ => 2 * config.jobs.length + 2
  | .sizing => 2 * (config.jobs.length - state.rings.length) + 1
  | .making _ => 2 * (config.jobs.length - state.rings.length - 1) + 2
  | .finished | .failed => 0

def Action.isAdvance : Action → Bool
  | .advance => true
  | _ => false

/-- Every step of `start` brings it nearer to its end, and no other step takes it back. -/
theorem left_step (hnext : config.step state action = some next) :
    (if action.isAdvance then 1 else 0) + config.left next ≤ config.left state := by
  cases config.step_cases hnext with
  | give | take => exact Nat.le_of_eq (Nat.zero_add _)
  | noStore hpc | limit hpc | store _ hpc | storeFails _ hpc | size hpc | finish hpc | make _ hpc | makeFails _ hpc =>
    simp only [Config.left, hpc, Action.isAdvance, if_true, List.length_append, List.length_singleton]
    omega

/-- A start makes two steps for each edge and three more at most, whatever comes in between. -/
theorem advances_le {actions : List Action} (hrun : (config.machine free).runFrom state actions = some next) :
    actions.countP Action.isAdvance + config.left next ≤ config.left state := by
  induction actions generalizing state with
  | nil =>
    cases hrun
    exact Nat.le_of_eq (Nat.zero_add _)
  | cons action rest ih =>
    rw [Machine.runFrom_cons, Option.bind_eq_some_iff] at hrun
    obtain ⟨middle, hmiddle, hrest⟩ := hrun
    have hstep := left_step hmiddle
    have hle := ih hrest
    rw [List.countP_cons]
    omega

/-- `start` stands still only where it has finished or failed. -/
theorem advance_eq_none (hnone : config.step state .advance = none) : state.pc = .finished ∨ state.pc = .failed := by
  simp only [Config.step, Config.advance] at hnone
  cases hpc : state.pc with
  | limiting | storing | sizing | making =>
    simp only [hpc] at hnone
    split at hnone <;> cases hnone
  | finished => exact .inl rfl
  | failed => exact .inr rfl

/-- As long as the least that store and rings take and what other processes take come to three quarters of what was
free at most, `start` makes the store and all its rings, of the capacities its stages have, in two steps for each
edge and three more, and raises nothing that its checks do not. -/
theorem start_fits {actions : List Action} (hpage : config.page ∣ 64 * 1024) (hring : config.env.ringMb = none)
    (hroom : 4 * (config.least + others) ≤ 3 * free)
    (hrun : ((config.machine free).restrict (takesAtMost others)).runFrom (config.machine free).start actions =
      some state) :
    actions.countP Action.isAdvance ≤ 2 * config.jobs.length + 3 ∧
      (config.step state .advance = none →
        state.rings.map Header.maxsize = (List.range config.jobs.length).map (capacity config.jobs) ∧
          state.store.isSome = config.env.store) ∧
      ∀ pipe : Start.Pipe, pipe.jobs = config.jobs → failsEarly pipe none = false →
        (Start.start pipe state.failure).1 = none := by
  have hboth : Inv config free state ∧ Fitting config others state := by
    apply Machine.run_invariant (fun state ↦ Inv config free state ∧ Fitting config others state) _
      ⟨.init config free, fitting_init config free others⟩ hrun
    rintro state action next ⟨hinv, hfit⟩ hstep
    obtain ⟨hallowed, hnext⟩ := Machine.restrict_step hstep
    exact ⟨hinv.step hpage hring hnext, hinv.fitting hpage hroom hfit hallowed hnext⟩
  obtain ⟨hinv, hfit⟩ := hboth
  refine ⟨?_, ?_, ?_⟩
  · have hle := advances_le (Machine.runFrom_of_restrict hrun)
    change actions.countP Action.isAdvance + config.left state ≤ 2 * config.jobs.length + 3 at hle
    omega
  · intro hnone
    have hpc : state.pc = .finished := (advance_eq_none hnone).resolve_right hfit.succeeds
    refine ⟨?_, hfit.stored (by rw [hpc]; rfl)⟩
    rw [hinv.maxsizes, hinv.finished hpc]
  · intro pipe _ hfails
    have hfailure : state.failure = none := if_neg hfit.succeeds
    rw [hfailure]
    have hcases := Start.start_cases pipe none
    cases hstart : Start.start pipe none with
    | mk error after =>
      rw [hstart] at hcases
      cases hcases with
      | early hearly =>
        rw [hfails] at hearly
        cases hearly
      | sequential | built => rfl
      | edge _ _ hnone => cases hnone

/-- Two stages in a container with 64 MiB of shared memory, of which another process takes some. -/
def small : Config where
  env := ⟨true, none, none⟩
  page := 4096
  jobs := [⟨false, some 100, none, 0, false, false, 1⟩, ⟨true, none, none, 8, false, false, 2⟩]
  creator _ := ⟨1, 1, 1, 1, by decide, by decide, by decide⟩

def smallRun : List Action :=
  [.advance, .take (2 ^ 20), .advance, .advance, .give 5000, .advance, .advance, .take 1, .advance, .advance]

/-- Two edges in 64 MiB: the start goes through, though another process takes some of it meanwhile. -/
theorem start_fits_small : ∃ state,
    ((small.machine (2 ^ 26)).restrict (takesAtMost (2 ^ 21))).runFrom (small.machine (2 ^ 26)).start smallRun =
      some state ∧ state.rings.map Header.maxsize = [12, 0] ∧
    ∀ pipe : Start.Pipe, pipe.jobs = small.jobs → failsEarly pipe none = false →
      (Start.start pipe state.failure).1 = none := by
  have hrun : (((small.machine (2 ^ 26)).restrict (takesAtMost (2 ^ 21))).runFrom (small.machine (2 ^ 26)).start
      smallRun).any (fun state ↦ state.pc = .finished) = true := by decide +kernel
  obtain ⟨state, hstate, hpc⟩ := (Option.any_eq_true _ _).mp hrun
  obtain ⟨-, hends, hstarts⟩ := start_fits (by decide) rfl (by decide +kernel) hstate
  have hnone : small.step state .advance = none := by
    rw [Config.step, Config.advance, of_decide_eq_true hpc]
  exact ⟨state, hstate, (hends hnone).1.trans (by decide), hstarts⟩

/-- Whatever other processes take, the rings and the store's control block come to a quarter of what was free and
the least there is at most. With the default limit, also the segments that the store has at any one time fit in
beside them, if the least is a quarter of what was free at most. -/
theorem shares_shared_memory {storeState : Store.State} {pid : ℕ → UInt32} {store : PayloadStore}
    (hpage : config.page ∣ 64 * 1024) (hring : config.env.ringMb = none) (hdefault : config.env.storeMb = none)
    (hroom : 4 * config.least ≤ free) (h : (config.machine free).Reachable state) (hstore : state.store = some store)
    (hstate : ((Store.machine store pid).restrict (Store.capped store)).Reachable storeState)
    (keys : Finset (ℕ × Bool)) :
    state.reserved config.page ≤ config.least + (free + state.given) / 4 ∧
      state.reserved config.page + ∑ key ∈ keys, (storeState.segments key).getD 0 ≤ free + state.given := by
  have hinv := inv_of_reachable hpage hring h
  have hrings := hinv.reserved_add_le 0 hinv.length_le
  rw [Nat.zero_mul, Nat.add_zero] at hrings
  obtain ⟨haccount, -⟩ := Store.numbered_of_reachable hstate
  have hsegments := haccount.withinLimit keys
  have hlimit := hinv.limit store hstore hdefault
  exact ⟨hrings, by omega⟩

/-- In 64 MiB the store gets 32 MiB in segments of 4 MiB, and one of these is made. -/
theorem shares_shared_memory_small : ∃ state storeState, (small.machine (2 ^ 26)).Reachable state ∧
    (storeState : Store.State).segments (0, false) = some (2 ^ 22) ∧
      state.reserved small.page + ∑ key ∈ {(0, false)}, (storeState.segments key).getD 0 ≤
        2 ^ 26 + state.given := by
  have hrun : ((small.machine (2 ^ 26)).runFrom (small.machine (2 ^ 26)).start smallRun).any
      (fun state ↦ (state.store.map fun store ↦ (store.limit, store.segBytes)) = some (2 ^ 25, 2 ^ 22)) = true := by
    decide +kernel
  have halloc : (((Store.machine (newStore (2 ^ 25)) UInt32.ofNat).restrict
      (Store.capped (newStore (2 ^ 25)))).runFrom .start (Store.firstAlloc 100)).any
        (fun state ↦ state.segments (0, false) = some (2 ^ 22)) = true := by decide +kernel
  obtain ⟨state, hstate, hsizes⟩ := (Option.any_eq_true _ _).mp hrun
  obtain ⟨storeState, hstoreState, hsegment⟩ := (Option.any_eq_true _ _).mp halloc
  obtain ⟨⟨limit, size, hmin, hmax⟩, hstore, hsame⟩ := Option.map_eq_some_iff.mp (of_decide_eq_true hsizes)
  obtain ⟨hlimit, hsize⟩ := Prod.mk.inj hsame
  have hnew : state.store = some (newStore (2 ^ 25)) := by
    rw [hstore, Option.some.injEq]
    dsimp only at hlimit hsize
    subst hlimit hsize
    rfl
  have hfits := shares_shared_memory (by decide) rfl rfl (by decide +kernel) ⟨_, hstate⟩ hnew ⟨_, hstoreState⟩
    {(0, false)}
  exact ⟨state, storeState, ⟨_, hstate⟩, of_decide_eq_true hsegment, hfits.2⟩

end GpuPipe.Footprint
