-- SUMMARY: The blocks of a region are aligned, inside of their nodes and apart.
import Irods.Base.CInt
import Mathlib.Data.List.Basic
import Mathlib.Order.Basic

/-!
# Regions

`make_region`, `region_alloc_nodesc` and `region_alloc` of `region.c` when `malloc` succeeds, with a
`size_t` of 64 bits. The nodes are known by their places in the list; the active one is the last.
-/

namespace Regions

def DEFAULT_BLOCK_SIZE : Nat := 1024

def REGION_ALIGNMENT : Nat := 8

/-- The values of a `size_t`. -/
def sizeBound : Nat := 18446744073709551616

def roundToAlignment (x : Nat) : Nat :=
  if x % REGION_ALIGNMENT = 0 then x else (x / REGION_ALIGNMENT + 1) * REGION_ALIGNMENT

/-- `CACHE_SIZE(RegionDesc, 1)`: a pointer, a `size_t` and an `int`. -/
def descSize : Nat := roundToAlignment 24

structure RegionNode where
  size : Nat
  used : Nat

structure Region where
  full : List RegionNode
  active : RegionNode

def Region.nodes (r : Region) : List RegionNode := r.full ++ [r.active]

/-- What `region_alloc` gives out: the descriptor is at `start`, the memory `descSize` behind it. -/
structure Block where
  node : Nat
  start : Nat
  allocSize : Nat

def make_region_node (is : Nat) : RegionNode := ⟨is, 0⟩

def make_region (is : Nat) : Region := ⟨[], make_region_node (if is = 0 then DEFAULT_BLOCK_SIZE else is)⟩

/-- The space test, and a new node where it fails; `blocksize` is an `int`. -/
def withSpace (r : Region) (s : Nat) : Region :=
  if s > (r.active.size + sizeBound - r.active.used) % sizeBound then
    let blocksize := int32 (if s > DEFAULT_BLOCK_SIZE then s else DEFAULT_BLOCK_SIZE)
    ⟨r.nodes, make_region_node (blocksize % sizeBound).toNat⟩
  else r

def region_alloc_nodesc (r : Region) (s : Nat) : Region × Block :=
  let r := withSpace r s
  let allocSize := if s > DEFAULT_BLOCK_SIZE then s else roundToAlignment s
  ({ r with active.used := r.active.used + allocSize }, ⟨r.full.length, r.active.used, allocSize⟩)

def region_alloc (r : Region) (size : Nat) : Region × Block :=
  region_alloc_nodesc r ((size + descSize) % sizeBound)

/-- One call after the other, with all blocks in their order. -/
def allocs : List Nat → Region → Region × List Block
  | [], r => (r, [])
  | size :: sizes, r =>
    let (r, b) := region_alloc r size
    let (r, bs) := allocs sizes r
    (r, b :: bs)

/-- The block is in front of what is used of its node. -/
def Block.Within (b : Block) (r : Region) : Prop :=
  b.start % REGION_ALIGNMENT = 0 ∧ ∃ node, r.nodes[b.node]? = some node ∧ b.start + b.allocSize ≤ node.used

/-- The later block begins behind the earlier one, or is in another node. -/
def Block.Before (a b : Block) : Prop := a.node = b.node → a.start + a.allocSize ≤ b.start

/-! ## What is left of a node -/

/-- Either there is nothing left, or what is left is a multiple of the alignment and no more than
the default size. -/
structure RegionNode.Sound (node : RegionNode) : Prop where
  used : node.used ≤ node.size
  size : node.size < intBound
  rest : node.used = node.size ∨
    node.size ≤ DEFAULT_BLOCK_SIZE ∧ node.size % REGION_ALIGNMENT = 0 ∧ node.used % REGION_ALIGNMENT = 0

theorem roundToAlignment_spec (x : Nat) :
    x ≤ roundToAlignment x ∧ roundToAlignment x % REGION_ALIGNMENT = 0 ∧
      ∀ y, y % REGION_ALIGNMENT = 0 → x ≤ y → roundToAlignment x ≤ y := by
  unfold roundToAlignment REGION_ALIGNMENT
  split
  · rename_i hx
    exact ⟨le_refl x, hx, fun _ _ h => h⟩
  · refine ⟨by omega, Nat.mul_mod_left _ _, fun y hy h => ?_⟩
    omega

theorem intBound_lt : intBound < sizeBound := by decide

theorem room_eq {size used : Nat} (hused : used ≤ size) (hsize : size < intBound) :
    (size + sizeBound - used) % sizeBound = size - used := by
  have hlt := (Nat.sub_le size used).trans_lt (Nat.lt_trans hsize intBound_lt)
  rw [Nat.sub_add_comm hused, Nat.add_mod_right, Nat.mod_eq_of_lt hlt]

/-- What one allocation does: it uses up the front of what is left of the active node, or of a new
one that is put behind the others. -/
structure Allocates (r : Region) (s : Nat) (r' : Region) (b : Block) : Prop where
  place : r'.full = r.full ∧ b.start = r.active.used ∨ r'.full = r.nodes ∧ b.start = 0
  node : b.node = r'.full.length
  start : b.start % REGION_ALIGNMENT = 0
  size : s ≤ b.allocSize
  used : r'.active.used = b.start + b.allocSize
  sound : r'.active.Sound

theorem region_alloc_nodesc_spec {r : Region} {s : Nat} (hactive : r.active.Sound) (hpos : 0 < s)
    (hs : s < intBound) :
    Allocates r s (region_alloc_nodesc r s).1 (region_alloc_nodesc r s).2 := by
  obtain ⟨hused, hsize, hrest⟩ := hactive
  obtain ⟨hround, hmod, hleast⟩ := roundToAlignment_spec s
  have hdefault : DEFAULT_BLOCK_SIZE = 1024 := rfl
  have hbound : intBound = 2147483648 := rfl
  have hlarge_or : DEFAULT_BLOCK_SIZE < s ∨ roundToAlignment s ≤ DEFAULT_BLOCK_SIZE :=
    (Nat.lt_or_ge DEFAULT_BLOCK_SIZE s).imp id (hleast _ rfl)
  unfold region_alloc_nodesc withSpace
  rw [room_eq hused hsize]
  obtain hlarge | hle := hlarge_or
  · -- what is left is at most the default size, so that there is a new node, and all of it is used
    have hblock : (int32 s % sizeBound).toNat = s := by
      rw [int32_natCast hs, ← Int.natCast_emod, Int.toNat_natCast, Nat.mod_eq_of_lt (Nat.lt_trans hs intBound_lt)]
    have hnew : s > r.active.size - r.active.used := by omega
    simp only [gt_iff_lt, if_pos hlarge, if_pos hnew, hblock]
    exact ⟨.inr ⟨rfl, rfl⟩, rfl, rfl, le_refl s, rfl, ⟨(Nat.zero_add s).le, hs, .inl (Nat.zero_add s)⟩⟩
  · have hsmall : ¬ DEFAULT_BLOCK_SIZE < s := Nat.not_lt.mpr (hround.trans hle)
    simp only [gt_iff_lt, if_neg hsmall]
    split
    · have hblock : (int32 DEFAULT_BLOCK_SIZE % sizeBound).toNat = DEFAULT_BLOCK_SIZE := by decide
      rw [hblock]
      refine ⟨.inr ⟨rfl, rfl⟩, rfl, rfl, hround, rfl, ⟨?_, ?_, .inr ⟨le_refl _, ?_, ?_⟩⟩⟩
      · exact (Nat.zero_add _).trans_le hle
      · exact (by decide : DEFAULT_BLOCK_SIZE < intBound)
      · exact (by decide : DEFAULT_BLOCK_SIZE % REGION_ALIGNMENT = 0)
      · exact (congrArg (· % REGION_ALIGNMENT) (Nat.zero_add _)).trans hmod
    · rename_i hfits
      have halign : REGION_ALIGNMENT = 8 := rfl
      rw [halign] at hmod hleast hrest
      obtain hfull | ⟨hnode, hmodSize, hmodUsed⟩ := hrest
      · omega
      · have hroom := hleast (r.active.size - r.active.used) (by omega) (Nat.not_lt.mp hfits)
        refine ⟨.inl ⟨rfl, rfl⟩, rfl, hmodUsed, hround, rfl, ⟨?_, hsize, .inr ⟨hnode, hmodSize, ?_⟩⟩⟩
        · dsimp only
          omega
        · rw [halign]
          dsimp only
          omega

/-! ## Runs -/

variable {r r' : Region} {s : Nat} {b : Block}

/-- All nodes are within their sizes, and the active one is sound. -/
structure Region.Sound (r : Region) : Prop where
  active : r.active.Sound
  full : ∀ node ∈ r.full, node.used ≤ node.size

theorem Allocates.sound_region (h : Allocates r s r' b) (hr : r.Sound) : r'.Sound where
  active := h.sound
  full := by
    obtain ⟨hfull, -⟩ | ⟨hfull, -⟩ := h.place
    · rw [hfull]
      exact hr.full
    · rw [hfull]
      exact List.forall_mem_append.mpr ⟨hr.full, List.forall_mem_singleton.mpr hr.active.used⟩

theorem Allocates.within (h : Allocates r s r' b) : b.Within r' := by
  refine ⟨h.start, r'.active, ?_, h.used.ge⟩
  rw [h.node]
  exact List.getElem?_concat_length

/-- What was within a node stays there, in front of the new block. -/
theorem Allocates.keeps (h : Allocates r s r' b) {a : Block} (ha : a.Within r) : a.Within r' ∧ a.Before b := by
  obtain ⟨hstart, node, hnode, hwithin⟩ := ha
  have hlt := (List.getElem?_eq_some_iff.mp hnode).1
  simp only [Region.nodes, List.length_append, List.length_singleton] at hlt
  obtain ⟨hfull, hused⟩ | ⟨hfull, -⟩ := h.place
  · obtain hlt | heq := Nat.lt_succ_iff_lt_or_eq.mp hlt
    · refine ⟨⟨hstart, node, ?_, hwithin⟩, fun hsame => ?_⟩
      · rw [Region.nodes, hfull, List.getElem?_append_left hlt]
        rwa [Region.nodes, List.getElem?_append_left hlt] at hnode
      · rw [h.node, hfull] at hsame
        omega
    · rw [heq, Region.nodes, List.getElem?_concat_length] at hnode
      obtain rfl := Option.some.inj hnode
      refine ⟨⟨hstart, r'.active, ?_, ?_⟩, fun _ => hused ▸ hwithin⟩
      · rw [heq, ← hfull]
        exact List.getElem?_concat_length
      · have := h.used
        omega
  · refine ⟨⟨hstart, node, ?_, hwithin⟩, fun hsame => ?_⟩
    · rw [Region.nodes, hfull, List.getElem?_append_left (by simpa [Region.nodes] using hlt)]
      exact hnode
    · rw [h.node, hfull, Region.nodes, List.length_append, List.length_singleton] at hsame
      omega

variable (size : Nat) (sizes : List Nat)

theorem allocs_cons (r : Region) : allocs (size :: sizes) r = ((allocs sizes (region_alloc r size).1).1,
      (region_alloc r size).2 :: (allocs sizes (region_alloc r size).1).2) := rfl

theorem allocs_spec (hsizes : ∀ size ∈ sizes, size + descSize < intBound) (hr : r.Sound)
    (bs : List Block) (hbs : ∀ b ∈ bs, b.Within r) (hapart : bs.Pairwise Block.Before) :
    (allocs sizes r).1.Sound ∧ (∀ b ∈ bs ++ (allocs sizes r).2, b.Within (allocs sizes r).1) ∧
      (bs ++ (allocs sizes r).2).Pairwise Block.Before ∧
      List.Forall₂ (fun size b => size + descSize ≤ b.allocSize) sizes (allocs sizes r).2 := by
  induction sizes generalizing r bs with
  | nil => simpa [allocs] using ⟨hr, hbs, hapart⟩
  | cons size sizes ih =>
    obtain ⟨hsize, hsizes⟩ := List.forall_mem_cons.mp hsizes
    have hspec : Allocates r (size + descSize) (region_alloc r size).1 (region_alloc r size).2 := by
      rw [region_alloc, Nat.mod_eq_of_lt (Nat.lt_trans hsize intBound_lt)]
      exact region_alloc_nodesc_spec hr.active (Nat.add_pos_right _ (by decide)) hsize
    obtain ⟨hr', hall, hpair, hsz⟩ := ih hsizes (hspec.sound_region hr) (bs ++ [(region_alloc r size).2])
      (List.forall_mem_append.mpr ⟨fun b hb => (hspec.keeps (hbs b hb)).1,
        List.forall_mem_singleton.mpr hspec.within⟩)
      (List.pairwise_append.mpr ⟨hapart, List.pairwise_singleton _ _, fun a ha b hb => by
        rw [List.mem_singleton.mp hb]
        exact (hspec.keeps (hbs a ha)).2⟩)
    rw [List.append_assoc, List.singleton_append] at hall hpair
    rw [allocs_cons]
    exact ⟨hr', hall, hpair, .cons hspec.size hsz⟩

/-- The blocks of a region have what was asked for, with the descriptor; they are aligned, inside of
their nodes and apart from each other. -/
theorem allocs_apart (hsizes : ∀ size ∈ sizes, size + descSize < intBound) :
    let (r, bs) := allocs sizes (make_region 0)
    (∀ b ∈ bs, b.start % REGION_ALIGNMENT = 0 ∧
      ∃ node, r.nodes[b.node]? = some node ∧ b.start + b.allocSize ≤ node.size) ∧
    bs.Pairwise (fun a b => a.node = b.node → a.start + a.allocSize ≤ b.start) ∧
    List.Forall₂ (fun size b => size + descSize ≤ b.allocSize) sizes bs ∧
    ∀ node ∈ r.nodes, node.used ≤ node.size := by
  have hnew : (make_region 0).Sound := ⟨⟨by decide, by decide, .inr ⟨by decide, rfl, rfl⟩⟩, nofun⟩
  obtain ⟨hr, hall, hpair, hsz⟩ := allocs_spec sizes hsizes hnew [] nofun .nil
  have hused : ∀ node ∈ (allocs sizes (make_region 0)).1.nodes, node.used ≤ node.size :=
    List.forall_mem_append.mpr ⟨hr.full, List.forall_mem_singleton.mpr hr.active.used⟩
  refine ⟨fun b hb => ?_, hpair, hsz, hused⟩
  obtain ⟨hstart, node, hnode, hwithin⟩ := hall b hb
  exact ⟨hstart, node, hnode, hwithin.trans (hused node (List.mem_of_getElem? hnode))⟩

/-- A small block, one with a node of its own, and the one behind it. -/
theorem allocs_apart_three :
    let (r, bs) := allocs [1, 2000, 5] (make_region 0)
    (∀ b ∈ bs, b.start % REGION_ALIGNMENT = 0 ∧
      ∃ node, r.nodes[b.node]? = some node ∧ b.start + b.allocSize ≤ node.size) ∧
    bs.Pairwise (fun a b => a.node = b.node → a.start + a.allocSize ≤ b.start) ∧
    List.Forall₂ (fun size b => size + descSize ≤ b.allocSize) [1, 2000, 5] bs ∧
    ∀ node ∈ r.nodes, node.used ≤ node.size := allocs_apart [1, 2000, 5] (by decide)

end Regions
