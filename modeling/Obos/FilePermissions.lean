/-
Permissions of file descriptors.

`Vfs_FdOpenVnode` grants a descriptor everything and then takes back what the
process may not do, but it masks the flags with `FD_FLAGS_READ` where it should
clear a bit: a missing permission of either kind clears the write bit, and none
ever clears the read bit.

* `enforced_iff` — exactly when reads and writes through the opened descriptor obey
  the permissions: for whoever may read the file, for a directory, and for a vnode
  without a driver when nothing is refused that was granted,
* `unreadable_file_is_read` — a file its owner may not read, and a read of it.
-/
import Obos.FileIo

namespace Obos.Vfs

/-! ### The flags of an opened descriptor -/

section Open

variable {vn : Vnode} {desc : Fd} {uid gid : ℕ} {oflags : BitVec 32}

theorem fdOpenVnode_dir (hdesc : desc.isOpen = false) (h : vn.vtype = .dir) :
    (fdOpenVnode vn desc uid gid oflags).1 = desc := by
  rw [fdOpenVnode, hdesc, if_neg Bool.false_ne_true, if_pos h]

/-- The three bits of a descriptor that was opened. -/
theorem fdOpenVnode_flags (uid gid : ℕ) (oflags : BitVec 32) (hdesc : desc.isOpen = false)
    (h : vn.vtype ≠ .dir) :
    (fdOpenVnode vn desc uid gid oflags).1.isOpen = true ∧
      (fdOpenVnode vn desc uid gid oflags).1.canRead = true ∧
      (fdOpenVnode vn desc uid gid oflags).1.canWrite =
        ((vn.grants uid gid).1 && (vn.grants uid gid).2 && !oflags.getLsbD 0) := by
  rw [fdOpenVnode, hdesc, if_neg Bool.false_ne_true, if_neg h]
  -- a character device does not change the bit of `FD_OFLAGS_READ_ONLY`
  have hro : (if vn.vtype = .chr then oflags ||| 8#32 else oflags).getLsbD 0 =
      oflags.getLsbD 0 := by
    split <;> simp
  simp only [Fd.isOpen, Fd.canRead, Fd.canWrite, openBit, readBit, writeBit, hro]
  generalize (if vn.vtype = .chr then oflags ||| 8#32 else oflags).getLsbD 1 = uncached
  generalize oflags.getLsbD 0 = readOnly
  generalize vn.grants uid gid = g
  obtain ⟨r, w⟩ := g
  cases r <;> cases w <;> cases readOnly <;> cases uncached <;> simp

end Open

/-! ### What the flags decide -/

section Transfer

variable {D : Type*} [DecidableEq D] {s s' : State D} {d : D}

/-- A read that returns bytes was through an open descriptor of a vnode with a driver,
and one that is denied through one that is not open for reading. -/
theorem fdRead_spec {n : ℕ} {ok : Bool} {r : ReadResult} (h : fdRead s d n ok = some (s', r)) :
    (r.bytes ≠ [] → (s.fd d).isOpen = true ∧ s.vn.hasDriver = true) ∧
      (r.status = .accessDenied → (s.fd d).isOpen = true ∧ (s.fd d).canRead = false) := by
  rcases fdRead_cases h with ⟨-, hempty, hdenied⟩ | ⟨hopen, -, -, -, x, hx, hfin⟩
  · exact ⟨fun hb => absurd hempty hb, hdenied⟩
  obtain ⟨rfl, -⟩ := finishRead_cases hfin
  rw [doRead] at hx
  split at hx
  · obtain ⟨hdriver, ⟨rfl, -⟩ | ⟨-, -, hr | hr⟩⟩ := doUncachedRead_cases hx
    all_goals refine ⟨fun _ => ⟨hopen, hdriver⟩, fun hf => ?_⟩
    · cases hf
    all_goals
      rw [hr] at hf
      cases hf
  · obtain ⟨hentry, bs, -, hr⟩ := doCachedRead_cases hx
    exact ⟨fun _ => ⟨hopen, (pageCacheGetEntry_cases hentry).1⟩, fun hf => by rw [hr] at hf; cases hf⟩

/-- A write that counts bytes was through a descriptor open for writing. -/
theorem fdWrite_spec {buf : List UInt8} {ok : Bool} {r : WriteResult}
    (h : fdWrite s d buf ok = some (s', r)) :
    (r.count ≠ 0 → (s.fd d).isOpen = true ∧ (s.fd d).canWrite = true) ∧
      (r.status = .accessDenied → (s.fd d).isOpen = true ∧ (s.fd d).canWrite = false) := by
  rcases fdWrite_cases h with ⟨-, hzero, hdenied⟩ | ⟨hopen, -, -, hwrite, x, hx, hfin⟩
  · exact ⟨fun hc => absurd hzero hc, hdenied⟩
  obtain ⟨rfl, -⟩ := finishWrite_cases hfin
  refine ⟨fun _ => ⟨hopen, hwrite⟩, fun hf => ?_⟩
  rw [doWrite] at hx
  split at hx
  · obtain ⟨-, ⟨rfl, -⟩ | ⟨-, ⟨-, hr⟩ | ⟨-, hr⟩⟩⟩ := doUncachedWrite_cases hx
    · cases hf
    · rw [hr] at hf
      cases hf
    · rw [hr] at hf
      cases hf
  · obtain ⟨s1, s2, -, -, rfl⟩ := doCachedWrite_cases hx
    cases hf

end Transfer

/-! ### Enforcement -/

/-- `d` was opened on the vnode of `s`, which is `vn` as far as permissions go; it may
have been read, written and seeked since. -/
structure OpenedAs (vn : Vnode) (desc : Fd) (uid gid : ℕ) (oflags : BitVec 32) (s : State ℕ)
    (d : ℕ) : Prop where
  vtype : s.vn.vtype = vn.vtype
  flags : (s.fd d).flags = (fdOpenVnode vn desc uid gid oflags).1.flags

/-- Data is transferred only if the opener's class grants it, and what it grants and
the open flags do not exclude is not denied. -/
structure Enforced (vn : Vnode) (desc : Fd) (uid gid : ℕ) (oflags : BitVec 32) : Prop where
  read_granted : ∀ s d n ok s' r, OpenedAs vn desc uid gid oflags s d →
    fdRead s d n ok = some (s', r) → r.bytes ≠ [] → (vn.grants uid gid).1 = true
  read_allowed : (vn.grants uid gid).1 = true → ∀ s d n ok s' r,
    OpenedAs vn desc uid gid oflags s d → fdRead s d n ok = some (s', r) →
    r.status ≠ .accessDenied
  write_granted : ∀ s d buf ok s' r, OpenedAs vn desc uid gid oflags s d →
    fdWrite s d buf ok = some (s', r) → r.count ≠ 0 → (vn.grants uid gid).2 = true
  write_allowed : (vn.grants uid gid).2 = true → oflags.getLsbD 0 = false → ∀ s d buf ok s' r,
    OpenedAs vn desc uid gid oflags s d → fdWrite s d buf ok = some (s', r) →
    r.status ≠ .accessDenied

section Enforcement

variable {vn : Vnode} {desc : Fd} {uid gid : ℕ} {oflags : BitVec 32}

theorem OpenedAs.isOpen_iff {s : State ℕ} {d : ℕ} (h : OpenedAs vn desc uid gid oflags s d) :
    (s.fd d).isOpen = (fdOpenVnode vn desc uid gid oflags).1.isOpen ∧
      (s.fd d).canRead = (fdOpenVnode vn desc uid gid oflags).1.canRead ∧
      (s.fd d).canWrite = (fdOpenVnode vn desc uid gid oflags).1.canWrite := by
  simp [Fd.isOpen, Fd.canRead, Fd.canWrite, h.flags]

/-- A file of one byte behind an opened descriptor. -/
def oneByte (vn : Vnode) (flags : BitVec 32) : State ℕ where
  vn := { vn with filesize := 1, pagecache := ⟨[]⟩, data := none }
  fd _ := ⟨flags, 0⟩
  blkSize := 1
  device _ := 7
  frames _ := 0
  calls := []
  written := []

/-- Its byte can be read, cached or not. -/
theorem fdRead_oneByte (vn : Vnode) (flags : BitVec 32) (hdriver : vn.hasDriver = true)
    (hopen : (Fd.mk flags 0).isOpen = true) (hread : (Fd.mk flags 0).canRead = true) :
    ∃ s', fdRead (oneByte vn flags) 0 1 true = some (s', ⟨.success, [7]⟩) := by
  have hd : (oneByte vn flags).vn.hasDriver = true := hdriver
  have hfd : (oneByte vn flags).fd 0 = ⟨flags, 0⟩ := rfl
  have heof : isEof (oneByte vn flags).vn 0 = false := by
    simp [isEof, oneByte]
  have hall : truncated (oneByte vn flags).vn 0 1 = 1 := by
    have hleft : u64sub (oneByte vn flags).vn.filesize 0 = 1 := u64sub_of_le (Nat.zero_le 1)
      (show 1 < 2 ^ 64 by norm_num)
    rw [truncated, hleft, if_neg fun hf => lt_irrefl 1 hf.1]
  have hblk : (oneByte vn flags).blkSize = 1 := rfl
  have hdo : ∃ s1, doRead (oneByte vn flags) 0 1 true = some (s1, ⟨.success, [7]⟩) ∧
      s1.vn.hasDriver = true := by
    rw [doRead]
    split
    · refine ⟨(oneByte vn flags).called [uncachedCall (oneByte vn flags) 0 1], ?_, hd⟩
      rw [doUncachedRead, hd, hblk]
      rfl
    · -- the page is committed and read from the device
      have hscan : scanned 0 1 = [0] := by decide
      have htouch : touched 0 1 = [0] := by decide
      have hdata : cacheData (oneByte vn flags) = some ⟨1, fun _ => false, fun _ => 0⟩ := by
        show reserve 1 _ = _
        simp [reserve, pageSize, oneByte]
      refine ⟨((oneByte vn flags).setData (fill (oneByte vn flags)
        ⟨1, fun _ => false, fun _ => 0⟩ 0)).called [fillCall (oneByte vn flags) 0], ?_, hd⟩
      have hbyte : (fill (oneByte vn flags) ⟨1, fun _ => false, fun _ => 0⟩ 0).bytes 0 = 7 := by
        have hcount : (fillCall (oneByte vn flags) 0).count = 4096 := by
          simp [fillCall, hblk, pageSize]
        refine ByteMem.transfer_of_has ⟨by simp, ?_⟩
        rw [Span.stop, hcount, hblk]
        norm_num
      have hpop : (fill (oneByte vn flags) ⟨1, fun _ => false, fun _ => 0⟩ 0).populated 0 = true :=
        rfl
      rw [doCachedRead, hfd, pageCacheGetEntry, hd, hdata, hscan]
      simp [emptyPages, hscan, cacheRead, htouch, State.called, State.setData, hpop, hbyte,
        ByteMem.slice]
  obtain ⟨s1, hs1, hd1⟩ := hdo
  obtain ⟨⟨s2, st⟩, hs2⟩ := fdSeek_returns hd1 0 1 .cur
  refine ⟨s2, ?_⟩
  rw [fdRead, hfd]
  simp only [hopen, hread, heof, hall, hs1, Bool.not_true, Bool.false_eq_true, if_false,
    one_ne_zero]
  show finishRead 0 1 (s1, _) = _
  rw [finishRead, if_pos rfl, advance, Nat.cast_one, hs2]
  rfl

/-- A write through a descriptor that is open but not for writing is denied. -/
theorem fdWrite_denied {flags : BitVec 32} (hopen : (Fd.mk flags 0).isOpen = true)
    (hwrite : (Fd.mk flags 0).canWrite = false) :
    fdWrite (oneByte vn flags) 0 [0] true = some (oneByte vn flags, ⟨.accessDenied, 0⟩) := by
  have heof : isEof (oneByte vn flags).vn 0 = false := by
    simp [isEof, oneByte]
  rw [fdWrite]
  simp only [show (oneByte vn flags).fd 0 = ⟨flags, 0⟩ from rfl, hopen, heof, hwrite]
  rfl

/-- The permissions are enforced exactly for a directory, which cannot be opened; for
whoever may read; and for a vnode without a driver, which cannot be read, if the
opener may not write or asks for reading only. -/
theorem enforced_iff (vn : Vnode) (desc : Fd) (uid gid : ℕ) (oflags : BitVec 32)
    (hdesc : desc.isOpen = false) :
    Enforced vn desc uid gid oflags ↔
      vn.vtype = .dir ∨ (vn.grants uid gid).1 = true ∨
        (vn.hasDriver = false ∧ ((vn.grants uid gid).2 = false ∨ oflags.getLsbD 0 = true)) := by
  constructor
  · intro h
    by_cases hdir : vn.vtype = .dir
    · exact .inl hdir
    refine .inr (or_iff_not_imp_left.mpr fun hr => ?_)
    rw [Bool.not_eq_true] at hr
    obtain ⟨hopen, hread, hwrite⟩ := fdOpenVnode_flags uid gid oflags hdesc hdir
    rw [hr, Bool.false_and, Bool.false_and] at hwrite
    have hopened : OpenedAs vn desc uid gid oflags
        (oneByte vn (fdOpenVnode vn desc uid gid oflags).1.flags) 0 := ⟨rfl, rfl⟩
    refine ⟨?_, ?_⟩
    · -- with a driver the file is read
      by_contra hdriver
      rw [Bool.not_eq_false] at hdriver
      obtain ⟨s', hs'⟩ := fdRead_oneByte vn _ hdriver hopen hread
      rw [h.read_granted _ _ _ _ _ _ hopened hs' (by simp)] at hr
      cases hr
    · -- and a write that was granted is denied
      by_contra hno
      push Not at hno
      obtain ⟨hw, hro⟩ := hno
      rw [ne_eq, Bool.not_eq_false] at hw
      rw [ne_eq, Bool.not_eq_true] at hro
      exact h.write_allowed hw hro _ _ _ _ _ _ hopened (fdWrite_denied hopen hwrite) rfl
  · intro h
    by_cases hdir : vn.vtype = .dir
    · have hclosed : ∀ {s d}, OpenedAs vn desc uid gid oflags s d → (s.fd d).isOpen ≠ true := by
        intro s d ho
        rw [ho.isOpen_iff.1, fdOpenVnode_dir hdesc hdir, hdesc]
        exact Bool.false_ne_true
      refine ⟨fun s d n ok s' r ho hs hb => ?_, fun _ s d n ok s' r ho hs hf => ?_,
        fun s d buf ok s' r ho hs hb => ?_, fun _ _ s d buf ok s' r ho hs hf => ?_⟩
      · exact absurd ((fdRead_spec hs).1 hb).1 (hclosed ho)
      · exact absurd ((fdRead_spec hs).2 hf).1 (hclosed ho)
      · exact absurd ((fdWrite_spec hs).1 hb).1 (hclosed ho)
      · exact absurd ((fdWrite_spec hs).2 hf).1 (hclosed ho)
    · replace h := h.resolve_left hdir
      obtain ⟨hopen, hread, hwrite⟩ := fdOpenVnode_flags uid gid oflags hdesc hdir
      refine ⟨fun s d n ok s' r ho hs hb => ?_, fun _ s d n ok s' r ho hs hf => ?_,
        fun s d buf ok s' r ho hs hb => ?_, fun hw hro s d buf ok s' r ho hs hf => ?_⟩
      · -- what was read had a driver
        have hdriver := ((fdRead_spec hs).1 hb).2
        rw [Vnode.hasDriver, ho.vtype] at hdriver
        refine h.resolve_right fun hn => ?_
        rw [Vnode.hasDriver, hdriver] at hn
        cases hn.1
      · have hno := ((fdRead_spec hs).2 hf).2
        rw [ho.isOpen_iff.2.1, hread] at hno
        cases hno
      · have hcan := ((fdWrite_spec hs).1 hb).2
        rw [ho.isOpen_iff.2.2, hwrite, Bool.and_eq_true, Bool.and_eq_true] at hcan
        exact hcan.1.2
      · have hno := ((fdWrite_spec hs).2 hf).2
        rw [ho.isOpen_iff.2.2, hwrite, hw, hro, h.resolve_right (by rw [hw, hro]; simp)] at hno
        cases hno

theorem enforced_iff_ownerOnly :
    Enforced ⟨.reg, none, ⟨true, true, false, false, false, false⟩, 0, 0, 1, ⟨[]⟩, none⟩ ⟨0, 0⟩ 0 0
      0 :=
  (enforced_iff _ _ _ _ _ (by decide)).mpr (.inr (.inl (by decide)))

/-- A file that nobody may read is opened by its owner and read. -/
theorem unreadable_file_is_read :
    ¬ Enforced ⟨.reg, none, ⟨false, true, false, false, false, false⟩, 0, 0, 1, ⟨[]⟩, none⟩ ⟨0, 0⟩ 0
      0 0 := by
  intro h
  obtain ⟨s', hs'⟩ := fdRead_oneByte ⟨.reg, none, ⟨false, true, false, false, false, false⟩,
    0, 0, 1, ⟨[]⟩, none⟩ 3#32 (by decide) (by decide) (by decide)
  exact absurd (h.read_granted _ 0 1 true s' _ ⟨rfl, by decide⟩ hs' (by decide)) (by decide)

end Enforcement

end Obos.Vfs
