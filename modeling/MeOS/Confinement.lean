import MeOS.PageFault
import MeOS.PageTables
import MeOS.Lib.Runs

/-! # What a process gets through its capabilities

The calls of one process on files and areas. `open_file_by_node` records what it
grants; a read, a write or a page fault records the node whose content goes to the
process or comes from it. The fault handler reads for anybody: the process stays
within its capabilities when a fault in an area of a file comes only with a
descriptor of that file that would do for a read, or for a write.
-/

namespace MeOS

open Runs

/-- A process, what it was granted and what it got. -/
structure AccessRun where
  space : FaultState
  /-- The reserved size of the global file table. -/
  rSize : Nat
  lft : Vector Lfe
  /-- The nodes and capabilities of the opens that returned `ERROR_OK`. -/
  granted : List (Nat × Nat)
  /-- The descriptors left by opens that the driver refused. -/
  refused : List Nat
  delivered : List Nat
  modified : List Nat

/-- The global file table. -/
def AccessRun.table (c : AccessRun) : Vector Gfe := ⟨c.space.files.gft, c.rSize⟩

/-- The node of a global descriptor. -/
def AccessRun.nodeAt (c : AccessRun) (gfd : Nat) : Nat :=
  ((c.space.files.gft[gfd]?).map (·.fileNode)).getD 0

/-- The node of a local descriptor. -/
def AccessRun.nodeOf (c : AccessRun) (fd : Nat) : Nat :=
  ((lftGet c.lft fd).map fun e => c.nodeAt e.gfd).getD 0

def AccessRun.withFiles (c : AccessRun) (s : FileState) : AccessRun :=
  { c with space := { c.space with files := s } }

/-- After `open_file_by_node` on `node`. -/
def AccessRun.opened (c : AccessRun) (o : Opened) (node caps : Nat) : AccessRun :=
  { c.withFiles { c.space.files with gft := o.gft.data } with
    rSize := o.gft.rSize
    lft := o.lft
    granted := if o.result = .ok then (node, caps) :: c.granted else c.granted
    refused := if o.result = .ok then c.refused else o.localFd.toList ++ c.refused }

/-- After `read_file`. A read that does not fail delivers content. -/
def AccessRun.read (c : AccessRun) (s : FileState) (fd : Nat) :
    Except DescriptorError Nat → AccessRun
  | .ok _ => { c.withFiles s with delivered := c.nodeOf fd :: c.delivered }
  | .error _ => c.withFiles s

/-- After `write_file`. -/
def AccessRun.written (c : AccessRun) (s : FileState) (fd : Nat) :
    Except DescriptorError Nat → AccessRun
  | .ok _ => { c.withFiles s with modified := c.nodeOf fd :: c.modified }
  | .error _ => c.withFiles s

/-- The pages of the area are cells of the page cache that the process may write. -/
def sharedWritable (area : VmArea) : Bool :=
  fileBacked area && !chkBit area.flags mmapPrivate && chkBit area.flags mmapWrite

/-- After a page fault in `area`. Behind a writable page of the cache the process modifies the file
without any call. -/
def AccessRun.faulted (c : AccessRun) (s : FaultState) (area : VmArea) : AccessRun :=
  { c with
    space := s
    delivered := if fileBacked area then c.nodeAt area.fd :: c.delivered else c.delivered
    modified := if sharedWritable area then c.nodeAt area.fd :: c.modified else c.modified }

/-- A call of the process, or a page fault. `useOk` and `faultOk` restrict the descriptors that are
used and the addresses that fault. -/
inductive AccessStep (nodeCaps : Nat → Nat) (useOk faultOk : AccessRun → Nat → Prop) :
    AccessRun → AccessRun → Prop where
  | openFileByNode {c o} (fsOpen : ErrorT) (node caps : Nat) (hnode : node ≠ 0)
    (hret : FileInterface.openFileByNode (nodeCaps node) fsOpen c.table c.lft node caps = .ret o) :
    AccessStep nodeCaps useOk faultOk c (c.opened o node caps)
  | readFile {c s r} (ops : FsOperations) (fd start count buffer : Nat) (huse : useOk c fd)
    (hret : readFile ops c.space.files c.lft fd start count buffer = .ret (s, r)) :
    AccessStep nodeCaps useOk faultOk c (c.read s fd r)
  | writeFile {c s r} (ops : FsOperations) (fd start count buffer : Nat) (huse : useOk c fd)
    (hret : writeFile ops c.space.files c.lft fd start count buffer = .ret (s, r)) :
    AccessStep nodeCaps useOk faultOk c (c.written s fd r)
  | vfsMmapP {c proc r} (raw : VmArea) (pref gfd offset length prot flags : Nat)
    (hret : vfsMmapP raw c.space.proc pref gfd offset length prot flags = .ret (proc, r)) :
    AccessStep nodeCaps useOk faultOk c { c with space := { c.space with proc := proc } }
  | pageFault {c s proc area} (ops : FsOperations) (addr code : Nat) (hfault : faultOk c addr)
    (harea : pageFaultArea c.space.proc addr = .ret (proc, area))
    (hret : pageFaultBottom ops c.space addr code = .ret s) :
    AccessStep nodeCaps useOk faultOk c (c.faulted s area)

/-- A process without descriptors, among the files that others left open. -/
def AccessRun.Fresh (c : AccessRun) : Prop :=
  (c.table.Fits ∧ 0 < c.rSize) ∧ (∃ size, size < 4294967296 ∧ c.lft = vectorInit size) ∧
    c.granted = [] ∧ c.refused = [] ∧ c.delivered = [] ∧ c.modified = []

/-- The runs of a process; `nodeCaps` are the capabilities of the nodes. -/
def accessSystem (nodeCaps : Nat → Nat) (useOk faultOk : AccessRun → Nat → Prop) :
    System AccessRun where
  Init := AccessRun.Fresh
  Next := AccessStep nodeCaps useOk faultOk

/-- The node has the capability, and an open granted it. -/
def Granted (nodeCaps : Nat → Nat) (c : AccessRun) (node bit : Nat) : Prop :=
  chkBit (nodeCaps node) bit = true ∧ ∃ caps, (node, caps) ∈ c.granted ∧ chkBit caps bit = true

/-- Content goes to and comes from the process as granted. -/
def Confined (nodeCaps : Nat → Nat) (c : AccessRun) : Prop :=
  (∀ n ∈ c.delivered, Granted nodeCaps c n vfsCapRead) ∧
    ∀ n ∈ c.modified, Granted nodeCaps c n vfsCapWrite

/-! ## The condition -/

/-- The descriptor comes from an open that the driver did not refuse. -/
def OpenedOk (c : AccessRun) (fd : Nat) : Prop := fd ∉ c.refused

/-- The process has a descriptor of `gfd` with the capability. -/
def HasDescriptor (c : AccessRun) (gfd bit : Nat) : Prop :=
  ∃ fd e, OpenedOk c fd ∧ c.lft.data[fd]? = some e ∧ e.gfd = gfd ∧ chkBit e.flags bit = true

/-- What `page_fault_bottom` does not check: an area of a file needs a descriptor that would do for
the read, and for the writes to its shared pages. -/
def FaultCovered (c : AccessRun) (addr : Nat) : Prop :=
  ∀ proc area, pageFaultArea c.space.proc addr = .ret (proc, area) →
    (fileBacked area = true → HasDescriptor c area.fd vfsCapRead) ∧
      (sharedWritable area = true → HasDescriptor c area.fd vfsCapWrite)

/-! ## The invariant -/

/-- A descriptor that was not refused stands for a grant. -/
structure AccessInv (nodeCaps : Nat → Nat) (c : AccessRun) : Prop where
  gft : c.table.Fits ∧ 0 < c.rSize
  lft : c.lft.Fits ∧ 0 < c.lft.rSize
  valid : ∀ g ∈ c.granted, fileValidateCapabilities (nodeCaps g.1) g.2 = true
  entries : ∀ (fd : Nat) (e : Lfe), OpenedOk c fd → c.lft.data[fd]? = some e →
    ∃ g, c.space.files.gft[e.gfd]? = some g ∧ g.fileNode ≠ 0 ∧ (g.fileNode, e.flags) ∈ c.granted
  confined : Confined nodeCaps c

section Access

variable {nodeCaps : Nat → Nat} {c c' : AccessRun} {s : FileState} {gfd fd bit : Nat} {e : Lfe}

/-- A descriptor with a capability stands for a grant of it. -/
theorem AccessInv.granted (h : AccessInv nodeCaps c) (hopen : OpenedOk c fd)
    (he : c.lft.data[fd]? = some e) (hbit : bit &&& vfsCapMax = bit)
    (hflags : chkBit e.flags bit = true) : Granted nodeCaps c (c.nodeAt e.gfd) bit := by
  rcases h.entries fd e hopen he with ⟨g, hg, _, hgrant⟩
  have hnode : c.nodeAt e.gfd = g.fileNode := by
    unfold AccessRun.nodeAt
    rw [hg]
    rfl
  rw [hnode]
  exact ⟨validate_bit (h.valid _ hgrant) hbit hflags, e.flags, hgrant, hflags⟩

theorem AccessInv.covered (h : AccessInv nodeCaps c) (hhas : HasDescriptor c gfd bit)
    (hbit : bit &&& vfsCapMax = bit) : Granted nodeCaps c (c.nodeAt gfd) bit := by
  rcases hhas with ⟨fd, e, hopen, he, rfl, hflags⟩
  exact h.granted hopen he hbit hflags

/-- The tables stay, but for the pages and the open counts of the entries in use. -/
theorem AccessInv.kept (h : AccessInv nodeCaps c) (hlft : c'.lft = c.lft)
    (hrSize : c'.rSize = c.rSize) (hgranted : c'.granted = c.granted)
    (hrefused : c'.refused = c.refused)
    (hnodes : c'.space.files.fileNodes = c.space.files.fileNodes)
    (hconfined : Confined nodeCaps c') : AccessInv nodeCaps c' where
  gft := by
    have hlen : c'.space.files.gft.length = c.space.files.gft.length := by
      have := congrArg List.length hnodes
      unfold FileState.fileNodes at this
      rwa [List.length_map, List.length_map] at this
    rcases h.gft with ⟨⟨hle, hword⟩, hpos⟩
    refine ⟨⟨?_, ?_⟩, ?_⟩
    · show c'.space.files.gft.length ≤ c'.rSize
      rw [hlen, hrSize]
      exact hle
    · show c'.rSize < 4294967296
      rw [hrSize]
      exact hword
    · rw [hrSize]
      exact hpos
  lft := by
    rw [hlft]
    exact h.lft
  valid := by
    rw [hgranted]
    exact h.valid
  entries := by
    intro fd e hopen he
    unfold OpenedOk at hopen
    rw [hrefused] at hopen
    rw [hlft] at he
    rcases h.entries fd e hopen he with ⟨g, hg, hused, hgrant⟩
    rcases entriesKept_of_fileNodes hnodes _ g hg hused with ⟨g', hg', hnode⟩
    exact ⟨g', hg', by rwa [hnode], by rwa [hnode, hgranted]⟩
  confined := hconfined

/-- Opens only add grants. -/
theorem Confined.mono (h : Confined nodeCaps c) (hdelivered : c'.delivered = c.delivered)
    (hmodified : c'.modified = c.modified) (hgranted : ∀ g ∈ c.granted, g ∈ c'.granted) :
    Confined nodeCaps c' := by
  constructor
  · intro n hn
    rw [hdelivered] at hn
    rcases h.1 n hn with ⟨hnode, caps, hmem, hcaps⟩
    exact ⟨hnode, caps, hgranted _ hmem, hcaps⟩
  · intro n hn
    rw [hmodified] at hn
    rcases h.2 n hn with ⟨hnode, caps, hmem, hcaps⟩
    exact ⟨hnode, caps, hgranted _ hmem, hcaps⟩

theorem AccessInv.opened (h : AccessInv nodeCaps c) {fsOpen : ErrorT} {node caps : Nat} {o : Opened}
    (hnode : node ≠ 0)
    (hret : FileInterface.openFileByNode (nodeCaps node) fsOpen c.table c.lft node caps = .ret o) :
    AccessInv nodeCaps (c.opened o node caps) := by
  rcases FileInterface.openFileByNode_spec hret h.gft h.lft with ⟨hgft, hlft, hkept, hcases⟩
  have hgrants : ∀ g ∈ c.granted, g ∈ (c.opened o node caps).granted := by
    intro g hg
    unfold AccessRun.opened
    dsimp only
    split
    · exact List.mem_cons_of_mem _ hg
    · exact hg
  have hmono : Confined nodeCaps (c.opened o node caps) := h.confined.mono rfl rfl hgrants
  have hold : ∀ (fd : Nat) (e : Lfe), OpenedOk c fd → c.lft.data[fd]? = some e →
      ∃ g, o.gft.data[e.gfd]? = some g ∧ g.fileNode ≠ 0 ∧ (g.fileNode, e.flags) ∈ c.granted := by
    intro fd e hopen he
    rcases h.entries fd e hopen he with ⟨g, hg, hused, hgrant⟩
    rcases hkept _ g hg hused with ⟨g', hg', hsame⟩
    exact ⟨g', hg', by rwa [hsame], by rwa [hsame]⟩
  rcases hcases with ⟨hfail, hsame⟩ | ⟨fd, hgot⟩
  · -- no descriptor
    have hgranted : (c.opened o node caps).granted = c.granted := if_neg (by rw [hfail]; decide)
    refine ⟨hgft, hlft, ?_, ?_, hmono⟩
    · rw [hgranted]
      exact h.valid
    · intro j e hopen he
      rw [hgranted]
      refine hold j e ?_ (by rwa [← hsame])
      intro hmem
      apply hopen
      show j ∈ if o.result = .ok then c.refused else o.localFd.toList ++ c.refused
      rw [hfail, if_neg (by decide)]
      exact List.mem_append_right _ hmem
  · rcases hgot.entry with ⟨gfd, g, hentry, hg, hgnode⟩
    cases fsOpen with
    | ok =>
      have hok : o.result = .ok := hgot.result
      have hgranted : (c.opened o node caps).granted = (node, caps) :: c.granted := if_pos hok
      have hrefused : (c.opened o node caps).refused = c.refused := if_pos hok
      refine ⟨hgft, hlft, ?_, ?_, hmono⟩
      · rw [hgranted]
        intro g' hg'
        rcases List.mem_cons.mp hg' with rfl | hg'
        · exact hgot.valid
        · exact h.valid g' hg'
      · intro j e hopen he
        unfold OpenedOk at hopen
        rw [hrefused] at hopen
        rw [hgranted]
        by_cases hj : j = fd
        · subst hj
          rw [show (c.opened o node caps).lft = o.lft from rfl, hentry] at he
          cases he
          exact ⟨g, hg, by rwa [hgnode], by rw [hgnode]; exact List.mem_cons_self⟩
        · rcases hold j e hopen ((hgot.other j hj).symm.trans he) with ⟨g', hg', hused, hgrant⟩
          exact ⟨g', hg', hused, List.mem_cons_of_mem _ hgrant⟩
    | occur =>
      have hfail : o.result ≠ .ok := by
        rw [hgot.result]
        decide
      have hgranted : (c.opened o node caps).granted = c.granted := if_neg hfail
      have hrefused : (c.opened o node caps).refused = fd :: c.refused := by
        show (if o.result = .ok then c.refused else o.localFd.toList ++ c.refused) = _
        rw [if_neg hfail, hgot.localFd]
        rfl
      refine ⟨hgft, hlft, ?_, ?_, hmono⟩
      · rw [hgranted]
        exact h.valid
      · intro j e hopen he
        unfold OpenedOk at hopen
        rw [hrefused, List.mem_cons, not_or] at hopen
        rw [hgranted]
        exact hold j e hopen.2 ((hgot.other j hopen.1).symm.trans he)

/-- A call or a covered fault keeps the process within its capabilities. -/
theorem AccessInv.step (h : AccessInv nodeCaps c)
    (hstep : AccessStep nodeCaps OpenedOk FaultCovered c c') : AccessInv nodeCaps c' := by
  cases hstep with
  | openFileByNode fsOpen node caps hnode hret => exact h.opened hnode hret
  | @readFile s r ops fd start count buffer huse hret =>
    rcases readFile_spec hret with ⟨hkept, hread⟩
    cases r with
    | error e => exact h.kept rfl rfl rfl rfl hkept h.confined
    | ok w =>
      -- a read that succeeds has gone through the capability check of its descriptor
      rcases hread w rfl with ⟨entry, hentry, _, hflags⟩
      refine h.kept rfl rfl rfl rfl hkept ⟨?_, h.confined.2⟩
      have hnode : c.nodeOf fd = c.nodeAt entry.gfd := by
        unfold AccessRun.nodeOf lftGet
        rw [hentry]
        rfl
      intro n hn
      rcases List.mem_cons.mp hn with rfl | hn
      · rw [hnode]
        exact h.granted huse hentry (by decide) hflags
      · exact h.confined.1 n hn
  | @writeFile s r ops fd start count buffer huse hret =>
    rcases writeFile_spec hret with ⟨hkept, hwrite⟩
    cases r with
    | error e => exact h.kept rfl rfl rfl rfl hkept h.confined
    | ok w =>
      rcases hwrite w rfl with ⟨entry, hentry, _, hflags⟩
      refine h.kept rfl rfl rfl rfl hkept ⟨h.confined.1, ?_⟩
      have hnode : c.nodeOf fd = c.nodeAt entry.gfd := by
        unfold AccessRun.nodeOf lftGet
        rw [hentry]
        rfl
      intro n hn
      rcases List.mem_cons.mp hn with rfl | hn
      · rw [hnode]
        exact h.granted huse hentry (by decide) hflags
      · exact h.confined.2 n hn
  | vfsMmapP raw pref gfd offset length prot flags hret =>
    exact h.kept rfl rfl rfl rfl rfl h.confined
  | @pageFault s proc area ops addr code hfault harea hret =>
    rcases pageFaultBottom_spec hret with ⟨_, _, _, hkept, _⟩
    rcases hfault proc area harea with ⟨hread, hwrite⟩
    refine h.kept rfl rfl rfl rfl hkept ⟨?_, ?_⟩
    · intro n hn
      unfold AccessRun.faulted at hn
      dsimp only at hn
      split at hn
      · rename_i hfile
        rcases List.mem_cons.mp hn with rfl | hn
        · exact h.covered (hread hfile) (by decide)
        · exact h.confined.1 n hn
      · exact h.confined.1 n hn
    · intro n hn
      unfold AccessRun.faulted at hn
      dsimp only at hn
      split at hn
      · rename_i hshared
        rcases List.mem_cons.mp hn with rfl | hn
        · exact h.covered (hwrite hshared) (by decide)
        · exact h.confined.2 n hn
      · exact h.confined.2 n hn

theorem accessSystem_inv :
    (accessSystem nodeCaps OpenedOk FaultCovered).Inductive (AccessInv nodeCaps) where
  init := by
    intro c hc
    rcases hc with ⟨hgft, ⟨size, hsize, hlft⟩, hgranted, hrefused, hdelivered, hmodified⟩
    refine ⟨hgft, ?_, ?_, ?_, ?_, ?_⟩
    · rw [hlft]
      unfold vectorInit
      refine ⟨⟨Nat.zero_le _, ?_⟩, ?_⟩
      · dsimp only
        split <;> omega
      · dsimp only
        split <;> omega
    · rw [hgranted]
      intro g hg
      cases hg
    · rw [hlft]
      intro fd e _ he
      cases he
    · rw [hdelivered]
      intro n hn
      cases hn
    · rw [hmodified]
      intro n hn
      cases hn
  next := fun _ _ h hstep => h.step hstep

/-- In every run in which the descriptors used come from opens that returned `ERROR_OK`
and the faults in areas of files are covered by such descriptors, content is
delivered and modified only as granted. -/
theorem capabilities_confined (h : (accessSystem nodeCaps OpenedOk FaultCovered).Reachable c) :
    Confined nodeCaps c :=
  (accessSystem_inv.holds h).confined

end Access

/-! ## A file that others left open -/

/-- A file with its first page in the cache, and a process with an empty local table. -/
def openFile : AccessRun where
  space := {
    files := {
      mem := fun _ => 0
      cache := 4096
      cacheSize := 8192
      gft := [⟨1, 1, [⟨0, 0, false⟩]⟩]
      nodes := fun _ => ⟨4096⟩
      frames := fun _ => none }
    vm := emptySpace
    proc := sixteenPagesProc }
  rSize := 1
  lft := vectorInit 1
  granted := []
  refused := []
  delivered := []
  modified := []

theorem openFile_fresh : openFile.Fresh :=
  ⟨⟨⟨by decide, by decide⟩, by decide⟩, ⟨1, by decide, rfl⟩, rfl, rfl, rfl, rfl⟩

/-- The process has opened the file with `caps`. -/
def ownFile (caps : Nat) : AccessRun :=
  openFile.opened ⟨⟨[⟨1, 2, [⟨0, 0, false⟩]⟩], 1⟩, ⟨[⟨caps, 0⟩], 1⟩, some 0, .ok⟩ 1 caps

/-- It has mapped the first page at 8192, private and readable. -/
def mappedFile (caps : Nat) : AccessRun :=
  { ownFile caps with
    space := { (ownFile caps).space with
      proc := ⟨⟨⟨[⟨0, 4096, mmapNonRemove, invalidFd, 0⟩, ⟨8192, 12288, 66, 0, 0⟩,
        ⟨61440, 65536, mmapNonRemove, invalidFd, 0⟩], 4⟩, 0, 65536⟩, 0⟩ } }

/-- All that a node offers but nothing outside the first bits. -/
abbrev fullCaps : Nat → Nat := fun _ => vfsCapRead ||| vfsCapWrite ||| vfsCapCache

theorem mappedFile_reachable {caps : Nat} (useOk faultOk : AccessRun → Nat → Prop)
    (hvalid : fileValidateCapabilities (fullCaps 1) caps = true) :
    (accessSystem fullCaps useOk faultOk).Reachable (mappedFile caps) := by
  have hinit : (accessSystem fullCaps useOk faultOk).Reachable openFile := .init openFile_fresh
  have hopen : FileInterface.openFileByNode (fullCaps 1) .ok openFile.table openFile.lft 1 caps =
      .ret ⟨⟨[⟨1, 2, [⟨0, 0, false⟩]⟩], 1⟩, ⟨[⟨caps, 0⟩], 1⟩, some 0, .ok⟩ := by
    unfold FileInterface.openFileByNode
    rw [if_neg (by rw [hvalid]; decide)]
    rfl
  have hmap : vfsMmapP ⟨0, 0, 0, 0, 0⟩ sixteenPagesProc 8192 0 0 4096 2 64 =
      .ret ((mappedFile caps).space.proc, .ok 8192) := by
    show vfsMmapP ⟨0, 0, 0, 0, 0⟩ sixteenPagesProc 8192 0 0 4096 2 64 =
      .ret ((mappedFile 0).space.proc, .ok 8192)
    decide +kernel
  exact (hinit.next (.openFileByNode .ok 1 caps (by decide) hopen)).next
    (.vfsMmapP ⟨0, 0, 0, 0, 0⟩ 8192 0 0 4096 2 64 hmap)

theorem mappedFile_area (caps : Nat) : pageFaultArea (mappedFile caps).space.proc 8192 =
    .ret ((mappedFile caps).space.proc, ⟨8192, 12288, 66, 0, 0⟩) := by
  show pageFaultArea (mappedFile 0).space.proc 8192 =
    .ret ((mappedFile 0).space.proc, ⟨8192, 12288, 66, 0, 0⟩)
  decide +kernel

/-- A read in the mapped page is served, with whatever capabilities the file was opened. -/
theorem mappedFile_fault (ops : FsOperations) (caps : Nat) :
    ∃ s, pageFaultBottom ops (mappedFile caps).space 8192 4 = .ret s := by
  rcases vmmngrAllocPageF_returns (s := (mappedFile caps).space.vm)
    (BitVec.ofNat 32 (pageOf 8192)) (pageFaultCalculatePresentFlags 66)
    (show emptySpace.currentDirectory ≠ 0#32 by decide) with ⟨⟨vm, r⟩, halloc⟩
  have hread : ∃ files, readFileGlobal ops (mappedFile caps).space.files 0 0 pageSize
      (pageOf 8192) (vfsCapRead ||| vfsCapCache) = .ret (files, .ok pageSize) := ⟨_, rfl⟩
  rcases hread with ⟨files, hread⟩
  refine ⟨{ (mappedFile caps).space with files := files, vm := vm }, ?_⟩
  unfold pageFaultBottom
  rw [mappedFile_area, Outcome.ret_bind]
  show faultPrivateFile ops (mappedFile caps).space ⟨8192, 12288, 66, 0, 0⟩ 8192 = _
  unfold faultPrivateFile
  dsimp only
  rw [halloc, Outcome.ret_bind]
  show ((readFileGlobal ops (mappedFile caps).space.files 0 0 pageSize (pageOf 8192)
    (vfsCapRead ||| vfsCapCache)) >>= _) = _
  rw [hread, Outcome.ret_bind]
  rfl

/-- Opened for reading, the file is read through the mapping. -/
theorem capabilities_confined_mapped : ∃ c : AccessRun, c.delivered = [1] ∧
    c.granted = [(1, vfsCapRead ||| vfsCapCache)] ∧ Confined fullCaps c := by
  rcases mappedFile_fault ⟨fun _ _ _ _ => (0, fun _ => 0), fun _ _ _ _ _ => 0⟩
    (vfsCapRead ||| vfsCapCache) with ⟨s, hfault⟩
  have hmapped := mappedFile_reachable OpenedOk FaultCovered
    (show fileValidateCapabilities (fullCaps 1) (vfsCapRead ||| vfsCapCache) = true by decide)
  have hcovered : FaultCovered (mappedFile (vfsCapRead ||| vfsCapCache)) 8192 := by
    intro proc area harea
    rw [mappedFile_area] at harea
    cases harea
    refine ⟨fun _ => ⟨0, _, List.not_mem_nil, rfl, rfl, by decide⟩, fun hshared => ?_⟩
    exact absurd hshared (by decide)
  exact ⟨_, rfl, rfl, capabilities_confined
    (hmapped.next (.pageFault _ 8192 4 hcovered (mappedFile_area _) hfault))⟩

/-- Opened for writing only, the file is read through the mapping all the same. -/
theorem capabilities_bypassed :
    ¬∀ c, (accessSystem fullCaps (fun _ _ => True) fun _ _ => True).Reachable c →
      Confined fullCaps c := by
  intro hall
  rcases mappedFile_fault ⟨fun _ _ _ _ => (0, fun _ => 0), fun _ _ _ _ _ => 0⟩ vfsCapWrite
    with ⟨s, hfault⟩
  have hmapped := mappedFile_reachable (fun _ _ => True) (fun _ _ => True)
    (show fileValidateCapabilities (fullCaps 1) vfsCapWrite = true by decide)
  have hconfined := hall _ (hmapped.next
    (.pageFault _ 8192 4 trivial (mappedFile_area vfsCapWrite) hfault))
  rcases hconfined.1 1 List.mem_cons_self with ⟨_, caps, hgrant, hread⟩
  have hcaps : caps = vfsCapWrite := by
    rcases List.mem_cons.mp hgrant with heq | hnil
    · exact congrArg Prod.snd heq
    · cases hnil
  rw [hcaps] at hread
  cases hread

end MeOS
