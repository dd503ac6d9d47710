import GpuPipe.Store.Process

/-!
# Where blocks lie, who refers to them, and what the free lists hold

Three views of one store. The layout says that everything ever carved lies in its
segment and apart from everything else, the references that a block's count is the
number of its live `Block` objects and handles, and the lists that each free list is a
finite chain of blocks of its class. Each view has one lemma per kind of change.
-/

namespace GpuPipe.Store

/-! ## Layout -/

/-- Carved blocks lie in their segments and do not overlap. -/
structure Layout (store : PayloadStore) (ctl : Ctl) (segments : ℕ × Bool → Option ℕ)
    (carved : Place → Option Carved) : Prop where
  regular : ∀ place block, carved place = some block → place.dedicated = false →
    place.seg < ctl.nreg ∧ place.seg < 2 ^ 24 ∧ segments (place.seg, false) = some store.segBytes ∧
      place.off + block.size ≤ store.segBytes ∧
        (ctl.cur = some place.seg → place.off + block.size ≤ ctl.bump)
  dedicated : ∀ place block, carved place = some block → place.dedicated = true →
    place.off = 0 ∧ place.seg < ctl.nded ∧
      (block.status ≠ .gone → segments (place.seg, true) = some block.size)
  disjoint : ∀ first second block block', carved first = some block → carved second = some block' →
    first ≠ second → first.seg = second.seg → first.dedicated = false → second.dedicated = false →
      first.off + block.size ≤ second.off ∨ second.off + block'.size ≤ first.off
  header : ∀ place block, carved place = some block → blkHdr ≤ block.size
  cur : ∀ seg, ctl.cur = some seg →
    seg < ctl.nreg ∧ seg < 2 ^ 24 ∧ segments (seg, false) = some store.segBytes

variable {store : PayloadStore} {ctl ctl' : Ctl} {segments segments' : ℕ × Bool → Option ℕ}
  {carved carved' : Place → Option Carved} {place : Place} {size : ℕ}

/-- The control words a layout depends on. -/
theorem Layout.congr (h : Layout store ctl segments carved) (hnreg : ctl'.nreg = ctl.nreg)
    (hnded : ctl.nded ≤ ctl'.nded) (hcur : ctl'.cur = ctl.cur) (hbump : ctl'.bump = ctl.bump) :
    Layout store ctl' segments carved where
  regular place block hblock hregular := by
    rw [hnreg, hcur, hbump]
    exact h.regular place block hblock hregular
  dedicated place block hblock hdedicated := by
    obtain ⟨hoff, hseg, hsegment⟩ := h.dedicated place block hblock hdedicated
    exact ⟨hoff, hseg.trans_le hnded, hsegment⟩
  disjoint := h.disjoint
  header := h.header
  cur seg hseg := by
    rw [hnreg]
    exact h.cur seg (hcur ▸ hseg)

/-- Blocks keep their places and sizes whatever becomes of them. -/
theorem Layout.keepSizes (h : Layout store ctl segments carved)
    (hsame : ∀ place block', carved' place = some block' → ∃ block, carved place = some block ∧
      block'.size = block.size ∧ (place.dedicated = true → block'.status ≠ .gone →
        block.status ≠ .gone)) : Layout store ctl segments carved' where
  regular place block' hblock' hregular := by
    obtain ⟨block, hblock, hsize, _⟩ := hsame place block' hblock'
    rw [hsize]
    exact h.regular place block hblock hregular
  dedicated place block' hblock' hdedicated := by
    obtain ⟨block, hblock, hsize, hgone⟩ := hsame place block' hblock'
    obtain ⟨hoff, hseg, hsegment⟩ := h.dedicated place block hblock hdedicated
    refine ⟨hoff, hseg, fun hstatus ↦ ?_⟩
    rw [hsize]
    exact hsegment (hgone hdedicated hstatus)
  disjoint first second block block' hfirst hsecond := by
    obtain ⟨old, hold, hsize, _⟩ := hsame first block hfirst
    obtain ⟨old', hold', hsize', _⟩ := hsame second block' hsecond
    rw [hsize, hsize']
    exact h.disjoint first second old old' hold hold'
  header place block' hblock' := by
    obtain ⟨block, hblock, hsize, _⟩ := hsame place block' hblock'
    rw [hsize]
    exact h.header place block hblock
  cur := h.cur

/-- The map after one block changed its status. -/
def restatus (carved : Place → Option Carved) (place : Place) (status : Status) :
    Place → Option Carved :=
  Function.update carved place ((carved place).map fun block ↦ { block with status := status })

theorem restatus_self {block : Carved} (h : carved place = some block) (status : Status) :
    restatus carved place status place = some { block with status := status } := by
  simp [restatus, h]

theorem restatus_of_ne {other : Place} (h : other ≠ place) (status : Status) :
    restatus carved place status other = carved other := by
  rw [restatus, Function.update_of_ne h]

/-- A block that changes hands stays where it is. -/
theorem Layout.setStatus (h : Layout store ctl segments carved) {block : Carved}
    (hblock : carved place = some block) (hgone : block.status ≠ .gone) (status : Status) :
    Layout store ctl segments (restatus carved place status) := by
  apply h.keepSizes
  intro other block' hblock'
  rcases eq_or_ne other place with rfl | hne
  · rw [restatus_self hblock, Option.some.injEq] at hblock'
    subst hblock'
    exact ⟨block, hblock, rfl, fun _ _ ↦ hgone⟩
  · rw [restatus_of_ne hne] at hblock'
    exact ⟨block', hblock', rfl, fun _ hstatus ↦ hstatus⟩

/-- Removing the segment of a dedicated block that is being freed. -/
theorem Layout.unlink (h : Layout store ctl segments carved) {block : Carved}
    (hblock : carved place = some block) (hdedicated : place.dedicated = true)
    (hgone : block.status ≠ .gone) :
    Layout store ctl (Function.update segments (place.seg, true) none) (restatus carved place .gone) := by
  have hold := h.setStatus hblock hgone .gone
  have hsegments (seg : ℕ) : Function.update segments (place.seg, true) none (seg, false) =
      segments (seg, false) := Function.update_of_ne (by simp) _ _
  refine ⟨?_, ?_, hold.disjoint, hold.header, ?_⟩
  · intro other block' hblock' hregular
    rw [hsegments]
    exact hold.regular other block' hblock' hregular
  · intro other block' hblock' hother
    obtain ⟨hoff, hseg, hsegment⟩ := hold.dedicated other block' hblock' hother
    refine ⟨hoff, hseg, fun hstatus ↦ ?_⟩
    have hplace := (h.dedicated place block hblock hdedicated).1
    have hne : other.seg ≠ place.seg := by
      intro heq
      have hsame : other = place := by
        cases other
        cases place
        simp_all
      rw [hsame, restatus_self hblock, Option.some.injEq] at hblock'
      exact hstatus (by rw [← hblock'])
    rw [Function.update_of_ne (by simpa using hne)]
    exact hsegment hstatus
  · intro seg hseg
    rw [hsegments]
    exact h.cur seg hseg

/-- A new block behind everything carved in the current segment. -/
theorem Layout.carve (h : Layout store ctl segments carved) {seg : ℕ} (hcur : ctl.cur = some seg)
    (hfits : ctl.bump + size ≤ store.segBytes) (hsize : blkHdr ≤ size) (status : Status) :
    Layout store { ctl with bump := ctl.bump + size } segments
      (Function.update carved ⟨seg, ctl.bump, false⟩ (some ⟨size, status⟩)) := by
  obtain ⟨hnreg, hseg, hsegment⟩ := h.cur seg hcur
  refine ⟨?_, ?_, ?_, ?_, h.cur⟩
  · intro place block hblock hregular
    rcases eq_or_ne place ⟨seg, ctl.bump, false⟩ with rfl | hne
    · rw [Function.update_self, Option.some.injEq] at hblock
      subst hblock
      exact ⟨hnreg, hseg, hsegment, hfits, fun _ ↦ le_rfl⟩
    · rw [Function.update_of_ne hne] at hblock
      obtain ⟨hnreg', hseg', hsegment', hinside, hbump⟩ := h.regular place block hblock hregular
      exact ⟨hnreg', hseg', hsegment', hinside, fun hplace ↦ (hbump hplace).trans (Nat.le_add_right _ _)⟩
  · intro place block hblock hdedicated
    have hne : place ≠ ⟨seg, ctl.bump, false⟩ := by
      rintro rfl
      cases hdedicated
    rw [Function.update_of_ne hne] at hblock
    exact h.dedicated place block hblock hdedicated
  · have hbehind (other : Place) (block : Carved) (hblock : carved other = some block)
        (hregular : other.dedicated = false) (hother : other.seg = seg) :
        other.off + block.size ≤ ctl.bump :=
      (h.regular other block hblock hregular).2.2.2.2 (hother ▸ hcur)
    intro first second block block' hfirst hsecond hne hsame hregular hregular'
    by_cases hnew : first = ⟨seg, ctl.bump, false⟩ <;> by_cases hnew' : second = ⟨seg, ctl.bump, false⟩
    · exact absurd (hnew.trans hnew'.symm) hne
    · rw [Function.update_of_ne hnew'] at hsecond
      subst hnew
      exact .inr (hbehind second block' hsecond hregular' hsame.symm)
    · rw [Function.update_of_ne hnew] at hfirst
      subst hnew'
      exact .inl (hbehind first block hfirst hregular hsame)
    · rw [Function.update_of_ne hnew] at hfirst
      rw [Function.update_of_ne hnew'] at hsecond
      exact h.disjoint first second block block' hfirst hsecond hne hsame hregular hregular'
  · intro place block hblock
    rcases eq_or_ne place ⟨seg, ctl.bump, false⟩ with rfl | hne
    · rw [Function.update_self, Option.some.injEq] at hblock
      subst hblock
      exact hsize
    · rw [Function.update_of_ne hne] at hblock
      exact h.header place block hblock

/-- Making an empty segment the current one; the old offset is stale until it is stored. -/
theorem Layout.setCur (h : Layout store ctl segments carved) {id : ℕ} (hid : id < ctl.nreg)
    (hmax : id < 2 ^ 24) (hsegment : segments (id, false) = some store.segBytes)
    (hempty : ∀ place block, carved place = some block → place.dedicated = false → place.seg ≠ id)
    (bump : ℕ) : Layout store { ctl with cur := some id, bump := bump } segments carved where
  regular place block hblock hregular := by
    obtain ⟨hnreg, hseg, hsegment', hinside, _⟩ := h.regular place block hblock hregular
    refine ⟨hnreg, hseg, hsegment', hinside, fun hcur ↦ ?_⟩
    exact absurd (Option.some.inj hcur).symm (hempty place block hblock hregular)
  dedicated := h.dedicated
  disjoint := h.disjoint
  header := h.header
  cur seg hseg := by
    obtain rfl := Option.some.inj hseg
    exact ⟨hid, hmax, hsegment⟩

theorem Layout.setNreg (h : Layout store ctl segments carved) {nreg : ℕ}
    (hblocks : ∀ place block, carved place = some block → place.dedicated = false → place.seg < nreg)
    (hcur : ∀ seg, ctl.cur = some seg → seg < nreg) :
    Layout store { ctl with nreg := nreg } segments carved where
  regular place block hblock hregular :=
    ⟨hblocks place block hblock hregular, (h.regular place block hblock hregular).2⟩
  dedicated := h.dedicated
  disjoint := h.disjoint
  header := h.header
  cur seg hseg := ⟨hcur seg hseg, (h.cur seg hseg).2⟩

/-- A new regular segment changes nothing that was there. -/
theorem Layout.create (h : Layout store ctl segments carved) (id : ℕ) :
    Layout store ctl (Function.update segments (id, false) (some store.segBytes)) carved := by
  have hregular (seg : ℕ) (hseg : segments (seg, false) = some store.segBytes) :
      Function.update segments (id, false) (some store.segBytes) (seg, false) = some store.segBytes := by
    rcases eq_or_ne seg id with rfl | hne
    · exact Function.update_self ..
    · rwa [Function.update_of_ne (by simpa using hne)]
  refine ⟨?_, ?_, h.disjoint, h.header, ?_⟩
  · intro place block hblock hplace
    obtain ⟨hnreg, hseg, hsegment, hinside⟩ := h.regular place block hblock hplace
    exact ⟨hnreg, hseg, hregular _ hsegment, hinside⟩
  · intro place block hblock hdedicated
    obtain ⟨hoff, hseg, hsegment⟩ := h.dedicated place block hblock hdedicated
    refine ⟨hoff, hseg, fun hstatus ↦ ?_⟩
    rw [Function.update_of_ne (by simp)]
    exact hsegment hstatus
  · intro seg hseg
    obtain ⟨hnreg, hmax, hsegment⟩ := h.cur seg hseg
    exact ⟨hnreg, hmax, hregular _ hsegment⟩

/-- A dedicated segment holds its one block. -/
theorem Layout.createDedicated (h : Layout store ctl segments carved) {id : ℕ} (hid : id < ctl.nded)
    (hsize : blkHdr ≤ size) (status : Status) :
    Layout store ctl (Function.update segments (id, true) (some size))
      (Function.update carved ⟨id, 0, true⟩ (some ⟨size, status⟩)) := by
  have hold (place : Place) (block : Carved) (hplace : place ≠ ⟨id, 0, true⟩)
      (hblock : Function.update carved ⟨id, 0, true⟩ (some ⟨size, status⟩) place = some block) :
      carved place = some block := by rwa [Function.update_of_ne hplace] at hblock
  have hregular (place : Place) (hplace : place.dedicated = false) : place ≠ ⟨id, 0, true⟩ := by
    rintro rfl
    cases hplace
  have hsegments (seg : ℕ) : Function.update segments (id, true) (some size) (seg, false) =
      segments (seg, false) := Function.update_of_ne (by simp) _ _
  refine ⟨?_, ?_, ?_, ?_, ?_⟩
  · intro place block hblock hplace
    rw [hsegments]
    exact h.regular place block (hold place block (hregular place hplace) hblock) hplace
  · intro place block hblock hdedicated
    rcases eq_or_ne place ⟨id, 0, true⟩ with rfl | hne
    · rw [Function.update_self, Option.some.injEq] at hblock
      subst hblock
      exact ⟨rfl, hid, fun _ ↦ Function.update_self ..⟩
    · have hblock' := hold place block hne hblock
      obtain ⟨hoff, hseg, hsegment⟩ := h.dedicated place block hblock' hdedicated
      refine ⟨hoff, hseg, fun hstatus ↦ ?_⟩
      have hneSeg : place.seg ≠ id := by
        intro heq
        apply hne
        cases place
        simp_all
      rw [Function.update_of_ne (by simpa using hneSeg)]
      exact hsegment hstatus
  · intro first second block block' hfirst hsecond hne hsame hfirstRegular hsecondRegular
    exact h.disjoint first second block block' (hold first block (hregular first hfirstRegular) hfirst)
      (hold second block' (hregular second hsecondRegular) hsecond) hne hsame hfirstRegular hsecondRegular
  · intro place block hblock
    rcases eq_or_ne place ⟨id, 0, true⟩ with rfl | hne
    · rw [Function.update_self, Option.some.injEq] at hblock
      subst hblock
      exact hsize
    · exact h.header place block (hold place block hne hblock)
  · intro seg hseg
    rw [hsegments]
    exact h.cur seg hseg

/-! ## References -/

/-- Live `Block` objects and handles of a block. -/
def refs (blocks : List Block) (handles : List Place) (place : Place) : ℕ :=
  (blocks.map Block.place).count place + handles.count place

/-- A block counts exactly its references, as long as they fit the 32-bit word. -/
structure Refs (hdr : Place → Hdr) (blocks : List Block) (handles : List Place)
    (carved : Place → Option Carved) : Prop where
  live_of_pos : ∀ place, 0 < refs blocks handles place → ∃ size, carved place = some ⟨size, .live⟩
  live : ∀ place size, carved place = some ⟨size, .live⟩ → 0 < refs blocks handles place ∧
    (hdr place).rc = refs blocks handles place ∧ refs blocks handles place < 2 ^ 32 ∧
      blkHdr + (hdr place).len ≤ size ∧
        (place.dedicated = false → size = classSize (hdr place).cls ∧ (hdr place).cls < nClass)
  len : ∀ block ∈ blocks, block.len = (hdr block.place).len

variable {hdr hdr' : Place → Hdr} {blocks : List Block} {handles : List Place} {block : Block}

theorem refs_block (h : block ∈ blocks) : 0 < refs blocks handles block.place := by
  have hcount := List.count_pos_iff.mpr (List.mem_map_of_mem (f := Block.place) h)
  unfold refs
  omega

theorem refs_handle (h : place ∈ handles) : 0 < refs blocks handles place := by
  have hcount := List.count_pos_iff.mpr h
  unfold refs
  omega

theorem refs_erase_block (handles : List Place) (h : block ∈ blocks) (place : Place) :
    refs (blocks.erase block) handles place + (if block.place = place then 1 else 0) =
      refs blocks handles place := by
  have hperm := ((List.perm_cons_erase h).map Block.place).count_eq place
  rw [List.map_cons, List.count_cons] at hperm
  unfold refs
  rw [hperm]
  simp only [beq_iff_eq]
  omega

theorem refs_erase_handle (h : place ∈ handles) (other : Place) :
    refs blocks (handles.erase place) other + (if place = other then 1 else 0) =
      refs blocks handles other := by
  have hperm := (List.perm_cons_erase h).count_eq other
  rw [List.count_cons] at hperm
  unfold refs
  rw [hperm]
  simp only [beq_iff_eq]
  omega

theorem refs_append_block (other : Place) :
    refs (blocks ++ [block]) handles other =
      refs blocks handles other + (if block.place = other then 1 else 0) := by
  unfold refs
  rw [List.map_append, List.count_append, List.map_singleton, List.count_singleton]
  simp only [beq_iff_eq]
  omega

theorem refs_append_handle (other : Place) :
    refs blocks (handles ++ [place]) other =
      refs blocks handles other + (if place = other then 1 else 0) := by
  unfold refs
  rw [List.count_append, List.count_singleton]
  simp only [beq_iff_eq]
  omega

/-- Changes to blocks that nobody refers to. -/
theorem Refs.frame (h : Refs hdr blocks handles carved)
    (hlive : ∀ place size, carved place = some ⟨size, .live⟩ →
      carved' place = some ⟨size, .live⟩ ∧ hdr' place = hdr place)
    (hlive' : ∀ place size, carved' place = some ⟨size, .live⟩ → carved place = some ⟨size, .live⟩) :
    Refs hdr' blocks handles carved' where
  live_of_pos place hpos := by
    obtain ⟨size, hsize⟩ := h.live_of_pos place hpos
    exact ⟨size, (hlive place size hsize).1⟩
  live place size hsize := by
    have hold := hlive' place size hsize
    rw [(hlive place size hold).2]
    exact h.live place size hold
  len block hblock := by
    obtain ⟨size, hsize⟩ := h.live_of_pos block.place (refs_block hblock)
    rw [(hlive block.place size hsize).2]
    exact h.len block hblock

/-- The first `Block` of an initialised block. -/
theorem Refs.init (h : Refs hdr blocks handles carved) (block : Block) {status : Status}
    (hcarved : carved block.place = some ⟨size, status⟩) (hstatus : status ≠ .live) (hrc : (hdr block.place).rc = 1)
    (hroom : blkHdr + block.len ≤ size)
    (hclass : block.place.dedicated = false →
      size = classSize (hdr block.place).cls ∧ (hdr block.place).cls < nClass) :
    Refs (Function.update hdr block.place { hdr block.place with len := block.len })
      (blocks ++ [block]) handles (restatus carved block.place .live) := by
  have hnone : refs blocks handles block.place = 0 := by
    by_contra hpos
    obtain ⟨_, hlive⟩ := h.live_of_pos block.place (Nat.pos_of_ne_zero hpos)
    rw [hcarved, Option.some.injEq, Carved.mk.injEq] at hlive
    exact hstatus hlive.2
  refine ⟨?_, ?_, ?_⟩
  · intro place hpos
    rcases eq_or_ne place block.place with rfl | hne
    · exact ⟨size, restatus_self hcarved .live⟩
    · rw [refs_append_block, if_neg hne.symm, Nat.add_zero] at hpos
      rw [restatus_of_ne hne]
      exact h.live_of_pos place hpos
  · intro place size' hsize'
    rw [refs_append_block]
    rcases eq_or_ne place block.place with rfl | hne
    · rw [restatus_self hcarved, Option.some.injEq, Carved.mk.injEq] at hsize'
      obtain ⟨rfl, -⟩ := hsize'
      rw [Function.update_self, hnone]
      exact ⟨by simp, by simp [hrc], by simp, hroom, hclass⟩
    · rw [restatus_of_ne hne] at hsize'
      rw [Function.update_of_ne hne, if_neg hne.symm, Nat.add_zero]
      exact h.live place size' hsize'
  · intro other hother
    rcases List.mem_append.mp hother with hold | hnew
    · have hne : other.place ≠ block.place := by
        intro heq
        have hpos : 0 < refs blocks handles other.place := refs_block hold
        rw [heq, hnone] at hpos
        exact absurd hpos (lt_irrefl 0)
      rw [Function.update_of_ne hne]
      exact h.len other hold
    · rw [List.mem_singleton.mp hnew, Function.update_self]

/-- One more reference, below the limit of the 32-bit count. -/
theorem Refs.share (h : Refs hdr blocks handles carved) (hblock : block ∈ blocks)
    (hmax : refs blocks handles block.place + 1 < 2 ^ 32) :
    Refs (Function.update hdr block.place { hdr block.place with
      rc := ((hdr block.place).rc + 1) % 2 ^ 32 }) blocks (handles ++ [block.place]) carved := by
  refine ⟨?_, ?_, ?_⟩
  · intro place hpos
    rcases eq_or_ne place block.place with rfl | hne
    · exact h.live_of_pos _ (refs_block hblock)
    · rw [refs_append_handle, if_neg hne.symm, Nat.add_zero] at hpos
      exact h.live_of_pos place hpos
  · intro place size' hsize'
    have hold := h.live place size' hsize'
    rw [refs_append_handle]
    rcases eq_or_ne place block.place with rfl | hne
    · rw [Function.update_self, if_pos rfl]
      refine ⟨by omega, ?_, hmax, hold.2.2.2⟩
      rw [hold.2.1]
      exact Nat.mod_eq_of_lt hmax
    · rw [Function.update_of_ne hne, if_neg hne.symm, Nat.add_zero]
      exact hold
  · intro other hother
    rw [h.len other hother]
    rcases eq_or_ne other.place block.place with heq | hne
    · rw [heq, Function.update_self]
    · rw [Function.update_of_ne hne]

/-- A handle turns into a `Block`. -/
theorem Refs.adopt (h : Refs hdr blocks handles carved) (block : Block) (hhandle : block.place ∈ handles)
    (hlen : block.len = (hdr block.place).len) :
    Refs hdr (blocks ++ [block]) (handles.erase block.place) carved := by
  have hsame (place : Place) : refs (blocks ++ [block]) (handles.erase block.place) place =
      refs blocks handles place := by
    rw [refs_append_block, ← refs_erase_handle hhandle place]
  refine ⟨?_, ?_, ?_⟩
  · intro place hpos
    exact h.live_of_pos place (hsame place ▸ hpos)
  · intro place size' hsize'
    rw [hsame]
    exact h.live place size' hsize'
  · intro other hother
    rcases List.mem_append.mp hother with hold | hnew
    · exact h.len other hold
    · rw [List.mem_singleton.mp hnew]
      exact hlen

/-- One reference fewer, and not the last. -/
theorem Refs.drop (h : Refs hdr blocks handles carved) (hblock : block ∈ blocks)
    (hrc : (hdr block.place).rc ≠ 1) :
    Refs (Function.update hdr block.place { hdr block.place with
      rc := ((hdr block.place).rc + (2 ^ 32 - 1)) % 2 ^ 32 }) (blocks.erase block) handles carved := by
  refine ⟨?_, ?_, ?_⟩
  · intro place hpos
    have hcount := refs_erase_block handles hblock place
    exact h.live_of_pos place (by omega)
  · intro place size' hsize'
    have hold := h.live place size' hsize'
    have hcount := refs_erase_block handles hblock place
    rcases eq_or_ne place block.place with rfl | hne
    · rw [if_pos rfl] at hcount
      rw [Function.update_self]
      refine ⟨by omega, ?_, by omega, hold.2.2.2⟩
      dsimp only
      omega
    · rw [if_neg hne.symm, Nat.add_zero] at hcount
      rw [Function.update_of_ne hne, hcount]
      exact hold
  · intro other hother
    rw [h.len other (List.mem_of_mem_erase hother)]
    rcases eq_or_ne other.place block.place with heq | hne
    · rw [heq, Function.update_self]
    · rw [Function.update_of_ne hne]

/-- The last reference goes, and the block with it. -/
theorem Refs.dropLast (h : Refs hdr blocks handles carved) (hblock : block ∈ blocks)
    (hrc : (hdr block.place).rc = 1) (status : Status) (hstatus : status ≠ .live) (newHdr : Hdr) :
    Refs (Function.update hdr block.place newHdr) (blocks.erase block) handles
      (restatus carved block.place status) := by
  obtain ⟨size, hsize⟩ := h.live_of_pos block.place (refs_block hblock)
  have hone := (h.live block.place size hsize).2.1
  have hgone : refs (blocks.erase block) handles block.place = 0 := by
    have hcount := refs_erase_block handles hblock block.place
    rw [if_pos rfl] at hcount
    omega
  have hother {place : Place} (hne : place ≠ block.place) :
      refs (blocks.erase block) handles place = refs blocks handles place := by
    have hcount := refs_erase_block handles hblock place
    rwa [if_neg hne.symm, Nat.add_zero] at hcount
  refine ⟨?_, ?_, ?_⟩
  · intro place hpos
    rcases eq_or_ne place block.place with rfl | hne
    · omega
    · rw [hother hne] at hpos
      rw [restatus_of_ne hne]
      exact h.live_of_pos place hpos
  · intro place size' hsize'
    rcases eq_or_ne place block.place with rfl | hne
    · rw [restatus_self hsize, Option.some.injEq, Carved.mk.injEq] at hsize'
      exact absurd hsize'.2 hstatus
    · rw [restatus_of_ne hne] at hsize'
      rw [Function.update_of_ne hne, hother hne]
      exact h.live place size' hsize'
  · intro other hmem
    have hne : other.place ≠ block.place := by
      intro heq
      have hpos : 0 < refs (blocks.erase block) handles other.place := refs_block hmem
      rw [heq, hgone] at hpos
      exact absurd hpos (lt_irrefl 0)
    rw [Function.update_of_ne hne]
    exact h.len other (List.mem_of_mem_erase hmem)

/-! ## Free lists -/

/-- The words from `word` on are a finite chain over these blocks. -/
inductive FreeChain (hdr : Place → Hdr) : ℕ → List Place → Prop
  | nil : FreeChain hdr 0 []
  | cons {word : ℕ} {rest : List Place} (hword : word ≠ 0)
      (hrest : FreeChain hdr (hdr (placeAt word)).next rest) : FreeChain hdr word (placeAt word :: rest)

theorem FreeChain.congr {word : ℕ} {list : List Place} (h : FreeChain hdr word list)
    (hsame : ∀ place ∈ list, hdr' place = hdr place) : FreeChain hdr' word list := by
  induction h with
  | nil => exact .nil
  | cons hword _ ih =>
    refine .cons hword ?_
    rw [hsame _ List.mem_cons_self]
    exact ih fun place hplace ↦ hsame place (List.mem_cons_of_mem _ hplace)

/-- A free list has one reading. -/
theorem FreeChain.unique {word : ℕ} {first second : List Place} (hfirst : FreeChain hdr word first)
    (hsecond : FreeChain hdr word second) : first = second := by
  induction hfirst generalizing second with
  | nil =>
    cases hsecond with
    | nil => rfl
    | cons hword => exact absurd rfl hword
  | cons hword _ ih =>
    cases hsecond with
    | nil => exact absurd rfl hword
    | cons _ hrest => rw [ih hrest]

/-- The first block of a free list, and the list behind it. -/
theorem FreeChain.uncons {word : ℕ} {list : List Place} (h : FreeChain hdr word list) (hword : word ≠ 0) :
    list = placeAt word :: list.tail ∧ FreeChain hdr (hdr (placeAt word)).next list.tail := by
  cases h with
  | nil => exact absurd rfl hword
  | cons _ hrest => exact ⟨rfl, hrest⟩

/-- Each list is a chain of distinct free blocks of its class. -/
structure Lists (hdr : Place → Hdr) (free : ℕ → ℕ) (freeList : ℕ → List Place)
    (carved : Place → Option Carved) : Prop where
  chain : ∀ cls, FreeChain hdr (free cls) (freeList cls)
  nodup : ∀ cls, (freeList cls).Nodup
  listed : ∀ cls, ∀ place ∈ freeList cls, carved place = some ⟨classSize cls, .free cls⟩ ∧
    place.dedicated = false ∧ (hdr place).cls = cls ∧ cls < nClass

variable {free : ℕ → ℕ} {freeList : ℕ → List Place}

theorem Lists.frame (h : Lists hdr free freeList carved)
    (hsame : ∀ place size cls, carved place = some ⟨size, .free cls⟩ →
      carved' place = carved place ∧ hdr' place = hdr place) :
    Lists hdr' free freeList carved' where
  chain cls := (h.chain cls).congr fun place hplace ↦
    (hsame place _ cls (h.listed cls place hplace).1).2
  nodup := h.nodup
  listed cls place hplace := by
    obtain ⟨hcarved, hrest⟩ := h.listed cls place hplace
    obtain ⟨hcarved', hhdr⟩ := hsame place _ cls hcarved
    rw [hcarved', hhdr]
    exact ⟨hcarved, hrest⟩

/-- Taking the first block off a list. -/
theorem Lists.pop (h : Lists hdr free freeList carved) {cls : ℕ} (hword : free cls ≠ 0) (status : Status) :
    placeAt (free cls) ∈ freeList cls ∧
      Lists hdr (Function.update free cls (hdr (placeAt (free cls))).next)
        (Function.update freeList cls (freeList cls).tail)
        (restatus carved (placeAt (free cls)) status) := by
  obtain ⟨hlist, hrest⟩ := (h.chain cls).uncons hword
  have hmem : placeAt (free cls) ∈ freeList cls := by
    rw [hlist]
    exact List.mem_cons_self
  have hnodup := h.nodup cls
  rw [hlist, List.nodup_cons] at hnodup
  have hother : ∀ other, ∀ place ∈ Function.update freeList cls (freeList cls).tail other,
      place ∈ freeList other ∧ place ≠ placeAt (free cls) := by
    intro other place hplace
    rcases eq_or_ne other cls with rfl | hne
    · rw [Function.update_self] at hplace
      refine ⟨List.mem_of_mem_tail hplace, ?_⟩
      rintro rfl
      exact hnodup.1 hplace
    · rw [Function.update_of_ne hne] at hplace
      refine ⟨hplace, ?_⟩
      rintro rfl
      have hfirst := (h.listed cls _ hmem).1
      rw [(h.listed other _ hplace).1, Option.some.injEq, Carved.mk.injEq, Status.free.injEq] at hfirst
      exact hne hfirst.2
  refine ⟨hmem, ?_, ?_, ?_⟩
  · intro other
    rcases eq_or_ne other cls with rfl | hne
    · rw [Function.update_self, Function.update_self]
      exact hrest
    · rw [Function.update_of_ne hne, Function.update_of_ne hne]
      exact h.chain other
  · intro other
    rcases eq_or_ne other cls with rfl | hne
    · rw [Function.update_self]
      exact hnodup.2
    · rw [Function.update_of_ne hne]
      exact h.nodup other
  · intro other place hplace
    obtain ⟨hold, hne⟩ := hother other place hplace
    rw [restatus_of_ne hne]
    exact h.listed other place hold

/-- Putting a linked block at the front of its list. -/
theorem Lists.push (h : Lists hdr free freeList carved) {cls : ℕ} {status : Status}
    (hcarved : carved place = some ⟨classSize cls, status⟩) (hstatus : ∀ other, status ≠ .free other)
    (hregular : place.dedicated = false) (hcls : (hdr place).cls = cls) (hlt : cls < nClass)
    (hnext : (hdr place).next = free cls) (hword : wordOf place ≠ 0) (hplace : placeAt (wordOf place) = place) :
    Lists hdr (Function.update free cls (wordOf place))
      (Function.update freeList cls (place :: freeList cls)) (restatus carved place (.free cls)) := by
  have hnew (other : ℕ) : place ∉ freeList other := by
    intro hmem
    have hlisted := (h.listed other place hmem).1
    rw [hcarved, Option.some.injEq, Carved.mk.injEq] at hlisted
    exact hstatus other hlisted.2
  refine ⟨?_, ?_, ?_⟩
  · intro other
    rcases eq_or_ne other cls with rfl | hne
    · rw [Function.update_self, Function.update_self]
      have hchain := h.chain other
      rw [← hnext, ← hplace] at hchain
      have hcons := FreeChain.cons hword hchain
      rwa [hplace] at hcons
    · rw [Function.update_of_ne hne, Function.update_of_ne hne]
      exact h.chain other
  · intro other
    rcases eq_or_ne other cls with rfl | hne
    · rw [Function.update_self]
      exact List.nodup_cons.mpr ⟨hnew other, h.nodup other⟩
    · rw [Function.update_of_ne hne]
      exact h.nodup other
  · intro other member hmember
    rcases eq_or_ne member place with rfl | hneMember
    · have hother : other = cls := by
        by_contra hne
        rw [Function.update_of_ne hne] at hmember
        exact hnew other hmember
      subst hother
      exact ⟨restatus_self hcarved _, hregular, hcls, hlt⟩
    · rw [restatus_of_ne hneMember]
      apply h.listed other member
      rcases eq_or_ne other cls with rfl | hne
      · rw [Function.update_self, List.mem_cons] at hmember
        exact hmember.resolve_left hneMember
      · rwa [Function.update_of_ne hne] at hmember

end GpuPipe.Store
