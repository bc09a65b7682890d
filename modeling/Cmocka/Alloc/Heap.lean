import Cmocka.Alloc.Table

/-!
# Alloc — the memory operations

What `_test_malloc` and `_test_free` do to memory, on the table: `insertBlock` adds a block whose
payload is filled with the allocation pattern, `removeBlock` takes one away.  Each changes bytes
inside the region of its own block only.
-/

namespace Cmocka

open Ring NodeHeap

variable {p : Platform} {h : Heap} {t : BlockTable} {b c : LiveBlock} {l l' : List LiveBlock}

/-! ### Bytes -/

theorem memset_on {mem : Nat → BitVec 8} {dst n a : Nat} {byte : BitVec 8}
    (hd : dst ≤ a) (hn : a < dst + n) : memset mem dst byte n a = byte := if_pos ⟨hd, hn⟩

theorem memset_off {mem : Nat → BitVec 8} {dst n a : Nat} {byte : BitVec 8}
    (ha : a < dst ∨ dst + n ≤ a) : memset mem dst byte n a = mem a :=
  if_neg fun hin => by
    obtain ⟨hd, hn⟩ : dst ≤ a ∧ a < dst + n := hin
    omega

theorem memcpy_on {mem : Nat → BitVec 8} {dst src n i : Nat} (hi : i < n) :
    memcpy mem dst src n (dst + i) = mem (src + i) := by
  unfold memcpy
  rw [if_pos ⟨Nat.le_add_right dst i, Nat.add_lt_add_left hi dst⟩, Nat.add_sub_cancel_left]

theorem memcpy_off {mem : Nat → BitVec 8} {dst src n a : Nat} (ha : a < dst ∨ dst + n ≤ a) :
    memcpy mem dst src n a = mem a :=
  if_neg fun hin => by
    obtain ⟨hd, hn⟩ : dst ≤ a ∧ a < dst + n := hin
    omega

/-- What `_test_malloc` writes around and into a new payload. -/
theorem stamped_bytes (mem : Nat → BitVec 8) (ptr size : Nat)
    (hptr : mallocGuardSize ≤ ptr) {mem' : Nat → BitVec 8}
    (hmem' : mem' = memset (memset (memset mem (ptr - mallocGuardSize) mallocGuardPattern
      mallocGuardSize) (ptr + size) mallocGuardPattern mallocGuardSize) ptr mallocAllocPattern
      size) :
    readBytes mem' (ptr - mallocGuardSize) mallocGuardSize =
        List.replicate mallocGuardSize mallocGuardPattern ∧
      readBytes mem' ptr size = List.replicate size mallocAllocPattern ∧
      readBytes mem' (ptr + size) mallocGuardSize =
        List.replicate mallocGuardSize mallocGuardPattern ∧
      ∀ a, a < ptr - mallocGuardSize ∨ ptr + size + mallocGuardSize ≤ a → mem' a = mem a := by
  subst hmem'
  refine ⟨?_, ?_, ?_, fun a ha => ?_⟩
  · refine readBytes_eq_replicate.mpr fun i hi => ?_
    rw [memset_off (by omega), memset_off (by omega), memset_on (by omega) (by omega)]
  · exact readBytes_eq_replicate.mpr fun i hi => memset_on (by omega) (by omega)
  · refine readBytes_eq_replicate.mpr fun i hi => ?_
    rw [memset_off (by omega), memset_on (by omega) (by omega)]
  · rw [memset_off (by omega), memset_off (by omega), memset_off (by omega)]

/-! ### Regions -/

namespace LiveBlock

theorem mem_region_iff {a : Nat} :
    a ∈ b.region p ↔ b.block ≤ a ∧ a < b.block + p.regionSize b.bytes.length := Iff.rfl

/-- The header lies in the region. -/
theorem info_mem_region : b.info p ∈ b.region p := by
  obtain ⟨hinfo, hptr, hend⟩ := b.layout p
  rw [mem_region_iff]
  simp only [mallocGuardSize] at *
  omega

/-- The guards and the payload lie in the region. -/
theorem mem_region {a : Nat} (hlo : b.ptr p - mallocGuardSize ≤ a)
    (hhi : a < b.ptr p + b.bytes.length + mallocGuardSize) : a ∈ b.region p := by
  obtain ⟨hinfo, hptr, hend⟩ := b.layout p
  rw [mem_region_iff]
  omega

/-- Blocks with disjoint regions have different headers. -/
theorem info_ne (h : Disjoint (b.region p) (c.region p)) : c.info p ≠ b.info p := by
  intro he
  exact Set.disjoint_left.mp h info_mem_region (he ▸ info_mem_region)

theorem ptr_pos : 0 < b.ptr p := by
  obtain ⟨hinfo, hptr, -⟩ := b.layout p
  omega

end LiveBlock

/-- A block keeps what it holds if its header and its region do not change. -/
theorem Holds.frame {h' : Heap} (hb : Holds p h b) (hinfo : h'.info (b.info p) = h.info (b.info p))
    (hmem : ∀ a ∈ b.region p, h'.mem a = h.mem a) : Holds p h' b where
  fits := hb.fits
  header := hinfo.trans hb.header
  frontGuard := by
    rw [← hb.frontGuard]
    refine readBytes_congr fun i hi => hmem _ (LiveBlock.mem_region ?_ ?_) <;> omega
  payload := by
    conv_rhs => rw [← hb.payload]
    refine readBytes_congr fun i hi => hmem _ (LiveBlock.mem_region ?_ ?_) <;> omega
  rearGuard := by
    rw [← hb.rearGuard]
    refine readBytes_congr fun i hi => hmem _ (LiveBlock.mem_region ?_ ?_) <;> omega

/-! ### Blocks of a table -/

/-- The header of a region apart from all others is not in the list. -/
theorem BlockTable.header_not_mem (hb : ∀ c ∈ t.live, Disjoint (b.region p) (c.region p)) :
    .header (b.info p) ∉ .head :: t.headers p := by
  simp only [BlockTable.headers, List.mem_cons, List.mem_map, reduceCtorEq, false_or, not_exists,
    not_and, BlockNode.header.injEq]
  exact fun c hc => LiveBlock.info_ne (hb c hc)

namespace Represents

/-- The region of a block is apart from those of the others. -/
theorem apart_rest (hr : Represents p h t) (hl : t.live = l ++ b :: l') :
    ∀ c ∈ l ++ l', Disjoint (b.region p) (c.region p) := by
  have hapart := hr.apart
  rw [hl, List.map_append, List.map_cons, List.pairwise_append, List.pairwise_cons] at hapart
  obtain ⟨-, ⟨hafter, -⟩, hbefore⟩ := hapart
  intro c hc
  rcases List.mem_append.mp hc with hc | hc
  · exact (hbefore _ (List.mem_map_of_mem hc) _ List.mem_cons_self).symm
  · exact hafter _ (List.mem_map_of_mem hc)

/-- Bytes are stored into the payload of a block. -/
theorem store (hr : Represents p h t) (hl : t.live = l ++ b :: l') {bytes : List (BitVec 8)}
    {mem : Nat → BitVec 8} (hlen : bytes.length = b.bytes.length)
    (hoff : ∀ a, a < b.ptr p ∨ b.ptr p + b.bytes.length ≤ a → mem a = h.mem a)
    (hon : readBytes mem (b.ptr p) bytes.length = bytes) :
    Represents p { h with mem } { t with live := l ++ { b with bytes } :: l' } := by
  have hb : Holds p h b := hr.holds b (hl ▸ List.mem_append_right l List.mem_cons_self)
  have hregion : LiveBlock.region p { b with bytes } = b.region p := by
    rw [LiveBlock.region, hlen]
    rfl
  have hheaders : BlockTable.headers { t with live := l ++ { b with bytes } :: l' } p =
      t.headers p := by
    rw [BlockTable.headers, BlockTable.headers, hl, List.map_append, List.map_append]
    rfl
  have hregions : (l ++ { b with bytes } :: l').map (LiveBlock.region p) =
      t.live.map (LiveBlock.region p) := by
    rw [hl, List.map_append, List.map_append, List.map_cons, List.map_cons, hregion]
  have hserials : (l ++ { b with bytes } :: l').map LiveBlock.serial =
      t.live.map LiveBlock.serial := by
    rw [hl, List.map_append, List.map_append]
    rfl
  -- the store stays inside the region of `b`, and the other regions are apart from it
  have hother : ∀ c ∈ l ++ l', Holds p { h with mem } c := by
    intro c hc
    have hcl : c ∈ t.live := by
      rw [hl]
      exact ((List.sublist_cons_self b l').append_left l).subset hc
    refine (hr.holds c hcl).frame rfl fun a ha => hoff a ?_
    by_contra hin
    have hab : a ∈ b.region p := LiveBlock.mem_region (by omega) (by omega)
    exact Set.disjoint_left.mp (hr.apart_rest hl c hc) hab ha
  refine ⟨hheaders ▸ hr.ring, fun hz => ?_, hheaders ▸ hr.values, ?_, hregions ▸ hr.apart,
    hserials ▸ hr.serials, hserials ▸ hr.numbered, hr.nextSerial, hr.errno⟩
  · have hnil := hr.unstarted hz
    rw [hl] at hnil
    simp at hnil
  · intro c hc
    rcases List.mem_append.mp hc with hc | hc
    · exact hother c (List.mem_append_left l' hc)
    rcases List.mem_cons.mp hc with rfl | hc
    · exact
        { fits := by
            rw [hlen]
            exact hb.fits
          header := by
            rw [hlen]
            exact hb.header
          frontGuard := by
            rw [← hb.frontGuard]
            refine readBytes_congr fun i hi => hoff _ (.inl ?_)
            have := LiveBlock.layout p b
            change b.ptr p - mallocGuardSize + i < b.ptr p
            omega
          payload := hon
          rearGuard := by
            rw [← hb.rearGuard]
            change readBytes mem (b.ptr p + bytes.length) mallocGuardSize = _
            rw [hlen]
            refine readBytes_congr fun i hi => hoff _ (.inr ?_)
            omega }
    · exact hother c (List.mem_append_right l hc)

end Represents

/-! ### The list of blocks -/

/-- `get_allocated_blocks_list` makes an empty list of the zeroed head. -/
theorem Represents.getAllocatedBlocksList (hr : Represents p h t) :
    Represents p h.getAllocatedBlocksList t ∧
      h.getAllocatedBlocksList.nodes.valueOf .head ≠ some 0 ∧
      h.getAllocatedBlocksList.mem = h.mem := by
  obtain ⟨head, hhead⟩ := exists_of_nextOf (hr.ring.forward.isSome List.mem_cons_self)
  have hvalue : h.nodes.valueOf .head = some head.value := by
    rw [valueOf, hhead]
    rfl
  unfold Heap.getAllocatedBlocksList
  rw [hhead]
  dsimp only
  split
  · rename_i hzero
    -- first use: the list is initialised, and nothing was allocated before
    have hnil := hr.unstarted (hvalue.trans (congrArg some hzero))
    have hheaders : t.headers p = [] := by rw [BlockTable.headers, hnil, List.map_nil]
    have hinit : ((listInitialize .head h.nodes).modify .head fun n => { n with value := 1 }).getD
        h.nodes = Function.update h.nodes .head
          (some { value := 1, refcount := 1, next := .head, prev := .head }) := by
      simp [listInitialize, NodeHeap.modify]
    rw [hinit]
    refine ⟨⟨?_, fun _ => hnil, fun info => ?_, fun b hb => ?_, hr.apart, hr.serials, hr.numbered,
      hr.nextSerial, hr.errno⟩, ?_, rfl⟩
    · rw [hheaders]
      refine ⟨List.nodup_singleton _, ?_, ?_⟩
      · exact (congrFun (nextOf_update _ _ _) _).trans (Function.update_self _ _ _)
      · exact (congrFun (prevOf_update _ _ _) _).trans (Function.update_self _ _ _)
    · rw [valueOf_update, Function.update_of_ne BlockNode.noConfusion]
      exact hr.values info
    · rw [hnil] at hb
      cases hb
    · rw [valueOf_update, Function.update_self]
      exact fun he => by cases he
  · rename_i hset
    exact ⟨hr, by rw [hvalue]; simpa using hset, rfl⟩

/-- The memory after `list_add` in `_test_malloc`. -/
theorem insertBlock_fields {block : Nat} (size : Nat) (location : SourceLocation)
    {nodes : NodeHeap BlockNode} (hadd : listAdd BlockNode.head
      (.header (p.headerOf (p.payload block)))
      (Function.update h.nodes (.header (p.headerOf (p.payload block)))
        (some { value := p.headerOf (p.payload block), refcount := 0, next := .head,
                prev := .head })) = some nodes) :
    ∃ h', h.insertBlock p block size location = some h' ∧ h'.nodes = nodes ∧
      h'.info = Function.update h.info (p.headerOf (p.payload block))
        (some { block, allocatedSize := p.allocateSize size, size, location
                serial := h.nextSerial }) ∧
      h'.mem = memset (memset (memset h.mem (p.payload block - mallocGuardSize)
        mallocGuardPattern mallocGuardSize) (p.payload block + size) mallocGuardPattern
        mallocGuardSize) (p.payload block) mallocAllocPattern size ∧
      h'.nextSerial = h.nextSerial + 1 ∧ h'.errno = h.errno := by
  unfold Heap.insertBlock
  dsimp only
  rw [hadd]
  exact ⟨_, rfl, rfl, rfl, rfl, rfl, rfl⟩

/-- A block is linked in at the end of the list. -/
theorem Represents.snoc (hr : Represents p h t) {h' : Heap} {new : LiveBlock}
    (hserial : new.serial = t.nextSerial)
    (hring : h'.nodes.Rings .head (t.headers p ++ [.header (new.info p)]))
    (hvalues : h'.nodes.valueOf =
      Function.update h.nodes.valueOf (.header (new.info p)) (some (new.info p)))
    (hstarted : h.nodes.valueOf .head ≠ some 0) (hother : ∀ c ∈ t.live, Holds p h' c)
    (hnew : Holds p h' new) (hapart : ∀ c ∈ t.live, Disjoint (new.region p) (c.region p))
    (hnext : h'.nextSerial = h.nextSerial + 1) (herrno : h'.errno = h.errno) :
    Represents p h' (t.insert new.block new.location new.bytes) := by
  have hlive : (t.insert new.block new.location new.bytes).live = t.live ++ [new] := by
    rw [BlockTable.insert, ← hserial]
  have hheaders : (t.insert new.block new.location new.bytes).headers p =
      t.headers p ++ [.header (new.info p)] := by
    rw [BlockTable.headers, hlive, List.map_append]
    rfl
  refine ⟨hheaders ▸ hring, fun hz => ?_, fun info => ?_, fun c hc => ?_, ?_, ?_, fun n hn => ?_,
    ?_, ?_⟩
  · rw [hvalues, Function.update_of_ne BlockNode.noConfusion] at hz
    exact absurd hz hstarted
  · rw [hheaders, hvalues]
    by_cases hi : info = new.info p
    · subst hi
      simp
    · have hne : BlockNode.header info ≠ .header (new.info p) := fun he => hi (by cases he; rfl)
      rw [Function.update_of_ne hne, hr.values info]
      simp [hi]
  · rw [hlive] at hc
    rcases List.mem_append.mp hc with hc | hc
    · exact hother c hc
    · exact List.mem_singleton.mp hc ▸ hnew
  · rw [hlive, List.map_append, List.pairwise_append]
    refine ⟨hr.apart, List.pairwise_singleton _ _, ?_⟩
    simp only [List.mem_map, List.map_cons, List.map_nil, List.mem_singleton]
    rintro _ ⟨c, hc, rfl⟩ _ rfl
    exact (hapart c hc).symm
  · rw [hlive, List.map_append, List.pairwise_append]
    refine ⟨hr.serials, List.pairwise_singleton _ _, ?_⟩
    intro n hn m hm
    rw [List.map_singleton, List.mem_singleton] at hm
    rw [hm, hserial]
    exact hr.numbered n hn
  · rw [hlive, List.map_append, List.mem_append] at hn
    change n < t.nextSerial + 1
    rcases hn with hn | hn
    · exact Nat.lt_succ_of_lt (hr.numbered n hn)
    · rw [List.map_singleton, List.mem_singleton, hserial] at hn
      exact hn ▸ Nat.lt_succ_self _
  · rw [hnext, hr.nextSerial]
    rfl
  · rw [herrno, hr.errno]
    rfl

/-- The stores of `_test_malloc` add a block at the end of the table. -/
theorem Represents.insertBlock (hr : Represents p h t) (hstarted : h.nodes.valueOf .head ≠ some 0)
    {block size : Nat} (hfits : p.Fits size) (location : SourceLocation)
    (hfresh : ∀ c ∈ t.live, Disjoint (Set.Ico block (block + p.regionSize size)) (c.region p)) :
    ∃ h', h.insertBlock p block size location = some h' ∧
      Represents p h' (t.insert block location (List.replicate size mallocAllocPattern)) ∧
      ∀ a ∉ Set.Ico block (block + p.regionSize size), h'.mem a = h.mem a := by
  obtain ⟨new, hnew⟩ : ∃ new, new = LiveBlock.mk block location t.nextSerial
    (List.replicate size mallocAllocPattern) := ⟨_, rfl⟩
  have hlen : new.bytes.length = size := by rw [hnew, List.length_replicate]
  have hregion : new.region p = Set.Ico block (block + p.regionSize size) := by
    rw [LiveBlock.region, hlen, hnew]
  have hptr : new.ptr p = p.payload block := by rw [LiveBlock.ptr, hnew]
  have hinfo : new.info p = p.headerOf (p.payload block) := by rw [LiveBlock.info, hptr]
  obtain ⟨hblock, hguard, hend⟩ := new.layout p
  rw [hlen] at hend
  rw [← hregion] at hfresh ⊢
  have hnotin := BlockTable.header_not_mem hfresh
  -- the new node, then `list_add`
  have hring := hr.ring.update hnotin
    (some { value := new.info p, refcount := 0, next := .head, prev := .head })
  obtain ⟨nodes, hadd, hring'⟩ := listAdd_ring hring hnotin
    (by rw [nextOf_update, Function.update_self]; rfl)
  have hvalues := listAdd_valueOf hadd
  rw [hinfo] at hadd
  obtain ⟨h', hins, rfl, hinfo', hmem', hnext, herrno⟩ :=
    insertBlock_fields size location hadd
  rw [← hptr] at hmem'
  rw [← hinfo] at hinfo'
  obtain ⟨hfront, hpayload, hrear, hoff⟩ := stamped_bytes h.mem (new.ptr p) size (by omega) hmem'
  have hframe : ∀ a ∉ new.region p, h'.mem a = h.mem a := by
    intro a ha
    rw [LiveBlock.mem_region_iff, hlen] at ha
    exact hoff a (by omega)
  have hother : ∀ c ∈ t.live, Holds p h' c := by
    intro c hc
    have hdisjoint := Set.disjoint_left.mp (hfresh c hc)
    refine (hr.holds c hc).frame ?_ fun a ha => hframe a fun hin => hdisjoint hin ha
    rw [hinfo', Function.update_of_ne (LiveBlock.info_ne (hfresh c hc))]
  have hheld : Holds p h' new :=
    { fits := hlen.symm ▸ hfits
      header := by
        rw [hinfo', Function.update_self, p.allocateSize_eq hfits, hr.nextSerial, hlen, hnew]
      frontGuard := hfront
      payload := by
        rw [hlen, hpayload, hnew]
      rearGuard := by
        rw [hlen]
        exact hrear }
  have hrep := hr.snoc (by rw [hnew]) hring' (by rw [hvalues, valueOf_update]; rfl) hstarted hother
    hheld hfresh hnext herrno
  subst hnew
  exact ⟨h', hins, hrep, hframe⟩

/-- The end of `_test_free` takes its block out of the table. -/
theorem Represents.removeBlock (hr : Represents p h t) (hl : t.live = l ++ b :: l')
    {data : MallocBlockInfoData} (hdata : h.info (b.info p) = some data) :
    ∃ h', h.removeBlock (b.info p) data = some h' ∧
      Represents p h' { t with live := l ++ l' } ∧ ∀ a ∉ b.region p, h'.mem a = h.mem a := by
  have hb : Holds p h b := hr.holds b (hl ▸ List.mem_append_right l List.mem_cons_self)
  cases hdata.symm.trans hb.header
  have hrest := hr.apart_rest hl
  have hsub : (l ++ l').Sublist t.live := hl ▸ (List.sublist_cons_self b l').append_left l
  have hring := hr.ring
  rw [BlockTable.headers, hl, List.map_append, List.map_cons] at hring
  obtain ⟨nodes, hremove, hring', -⟩ := listRemove_ring hring
  have hvalues := listRemove_valueOf hremove
  rw [← List.map_append] at hring'
  have hnotin : .header (b.info p) ∉ .head :: BlockTable.headers { t with live := l ++ l' } p :=
    BlockTable.header_not_mem hrest
  -- the free pattern is written over the whole region, guards and header included
  have hframe : ∀ a ∉ b.region p, memset h.mem b.block mallocFreePattern
      (p.regionSize b.bytes.length) a = h.mem a := by
    intro a ha
    rw [LiveBlock.mem_region_iff] at ha
    exact memset_off (by omega)
  have hserials : ((l ++ l').map LiveBlock.serial).Sublist (t.live.map LiveBlock.serial) :=
    hsub.map _
  refine ⟨_, by rw [Heap.removeBlock, hremove]; rfl, ?_, hframe⟩
  refine ⟨hring'.update hnotin _, fun hz => ?_, fun info => ?_, fun c hc => ?_,
    hr.apart.sublist (hsub.map _), hr.serials.sublist hserials,
    fun n hn => hr.numbered n (hserials.subset hn), hr.nextSerial, hr.errno⟩
  · rw [valueOf_update, Function.update_of_ne BlockNode.noConfusion, hvalues] at hz
    exact List.sublist_nil.mp (hr.unstarted hz ▸ hsub)
  · rw [valueOf_update]
    by_cases hi : info = b.info p
    · subst hi
      rw [Function.update_self, if_neg fun hin => hnotin (List.mem_cons_of_mem _ hin)]
      rfl
    · have hne : BlockNode.header info ≠ .header (b.info p) := fun he => hi (by cases he; rfl)
      rw [Function.update_of_ne hne, hvalues, hr.values info]
      simp [BlockTable.headers, hl, hi]
  · have hdisjoint := Set.disjoint_left.mp (hrest c hc)
    refine (hr.holds c (hsub.subset hc)).frame ?_ fun a ha => hframe a fun hin => hdisjoint hin ha
    exact Function.update_of_ne (LiveBlock.info_ne (hrest c hc)) _ _

end Cmocka
