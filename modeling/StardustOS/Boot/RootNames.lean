import StardustOS.Boot.Bootstrap
import StardustOS.Fs.PathWalk

/-!
# What is found in the mounted archive

After boot the archive is the only mountpoint, and its root lists the nodes of all entries,
the last one first.  A name without a slash is compared with the names of these nodes, and
an entry was given what `basename` leaves of its path.  So `/init` is the last entry that
is called `init`, in whatever directory it is.
-/

namespace StardustOS.Boot

open Lib Libc Dev Fs

/-- `node->inode`. -/
def inode : FsNode → Nat
  | .file _ ino => ino
  | .dir _ ino _ => ino

variable {env : Env}

/-- The entry is the last one of the name that the root lists. -/
structure Env.LastNamed (env : Env) (zip : Zip) (c : CStr) (i : Nat) (e : ZipEntry) : Prop where
  entry : zip.stat i = some e
  named : e.nodeName = c.1
  listed : env.mountMem.listNode i = true
  last : ∀ j e', i < j → zip.stat j = some e' → e'.nodeName = c.1 →
    env.mountMem.listNode j = false

/-- The node shows the entry. -/
structure Shows (node : FsNode) (i : Nat) (e : ZipEntry) : Prop where
  name : node.name = e.nodeName
  isDir : node.isDir = e.isDirectory
  inode : inode node = 2 + i

/-! ## The root -/

theorem filterMap_getElem?_range {α : Type*} (l : List α) :
    (List.range l.length).filterMap (fun i => l[i]?) = l := by
  induction l with
  | nil => rfl
  | cons a l ih =>
      rw [List.length_cons, List.range_succ_eq_map,
        List.filterMap_cons_some (b := a) List.getElem?_cons_zero, List.filterMap_map]
      exact congrArg (a :: ·) ih

/-- The last number that meets both conditions is found first in the reversed list. -/
theorem find?_reverse_range {p q : Nat → Bool} {n i : Nat} (hi : i < n) (hp : p i = true)
    (hq : q i = true) (hlast : ∀ j, i < j → j < n → q j = true → p j = false) :
    ((List.range n).filter p).reverse.find? q = some i := by
  induction n with
  | zero => exact absurd hi (Nat.not_lt_zero i)
  | succ n ih =>
      rw [List.range_succ, List.filter_append, List.reverse_append, List.find?_append]
      obtain rfl | hlt := Nat.eq_or_lt_of_le (Nat.le_of_lt_succ hi)
      · rw [List.filter_singleton, hp]
        simp [hq]
      · have hskip : ([n].filter p).reverse.find? q = none := by
          rw [List.find?_eq_none]
          intro j hj hqj
          obtain ⟨hmem, hpj⟩ := List.mem_filter.mp (List.mem_reverse.mp hj)
          obtain rfl := List.mem_singleton.mp hmem
          rw [hlast j hlt (Nat.lt_succ_self j) hqj] at hpj
          cases hpj
        rw [hskip, Option.none_or]
        exact ih hlt fun j hij hj => hlast j hij (Nat.lt_succ_of_lt hj)

/-- The children of the root are the nodes in the list. -/
theorem rootNode_children {zip : Zip} {mem : MountMem} {s : Initrd} (hm : Mounted zip mem s)
    (hend : s.nodesEnd = 0) (hword : zip.word = 0) (ino : Nat) :
    (env.rootNode s ino).children = s.nodes.filterMap (env.entryNode s ino) := by
  have hsame (f : Nat → Option FsNode) (hf : ∀ i, f i = s.nodes[i]?.bind (env.entryNode s ino)) :
      (List.range s.nodes.length).filterMap f = s.nodes.filterMap (env.entryNode s ino) := by
    rw [funext hf]
    exact List.filterMap_filterMap.symm.trans
      (congrArg (List.filterMap _) (filterMap_getElem?_range s.nodes))
  rw [Env.rootNode, FsNode.children_dir]
  refine hsame _ fun i => ?_
  rw [hm.getChild_root hend hword]
  cases s.nodes[i]? with
  | none => rfl
  | some k => rfl

/-! ## A name in the root -/

theorem fsResolve_root (mp : Mountpoint) {root : FsNode} (hroot : mp.rootnode = some root)
    (hd : root.isDir = true) (htarget : mp.target = rootTarget) (c : CStr) (hc : slash ∉ c.1)
    (rest : List UInt8) :
    (fsResolve [mp] (some (slash :: (c.1 ++ 0 :: rest)))).1 =
      match root.children.find? fun node => strcmp node.name c.1 = 0 with
      | some node => .found node
      | none => .error (-ENOENT) := by
  have hskip : skipSlash ([slash] ++ (c.1 ++ 0 :: rest)) 1 = 1 := by
    have hbyte : byteAt ([slash] ++ (c.1 ++ 0 :: rest)) 1 = deref (c.1 ++ 0 :: rest) := by
      cases c.1 with
      | nil => rfl
      | cons a cs => rfl
    rw [skipSlash, if_neg]
    rw [hbyte]
    cases hcs : c.1 with
    | nil => exact fun h => absurd h (by decide : (0 : UInt8) ≠ slash)
    | cons a cs => exact fun h => hc (hcs ▸ h ▸ List.mem_cons_self)
  have hdir : dirname ([slash] ++ (c.1 ++ 0 :: rest)) 1 = _ := dirname_noSlash c.2 hc
  have hstr : cstr ([slash] ++ (c.1 ++ 0 :: rest)) 1 = c.1 := cstr_append [slash] c.2
  have hmount : fsResolveMount [mp] ([slash] ++ (c.1 ++ 0 :: rest)) 0 =
      .ok ⟨mp, root, 1⟩ := by
    have hfind : [mp].find? (fun mp => strncmp (cstr ([slash] ++ (c.1 ++ 0 :: rest)) 1)
        mp.target.1 mp.target.1.length = 0) = some mp := by
      rw [List.find?_cons_of_pos]
      rw [htarget]
      rfl
    have hskip₀ : skipSlash ([slash] ++ (c.1 ++ 0 :: rest)) 0 = 1 := rfl
    simp only [fsResolveMount, hskip₀, hfind, Option.bind_some, Mountpoint.withRoot, hroot,
      Option.map_some, htarget]
    rfl
  show (fsResolve [mp] (some ([slash] ++ (c.1 ++ 0 :: rest)))).1 = _
  rw [fsResolve, hmount]
  dsimp only
  rw [fsNodeResolve]
  simp only [hskip, hdir, hstr, root.getChild_of_isDir hd, CPtr.strlen, List.length_singleton,
    Nat.lt_irrefl, ↓reduceIte]
  cases root.children.find? fun node => strcmp node.name c.1 = 0 with
  | none => rfl
  | some node => rfl

/-- The node of an entry shows it. -/
theorem entryNode_shows {zip : Zip} {mem : MountMem} {s : Initrd} (hm : Mounted zip mem s) {i : Nat}
    {e : ZipEntry} (he : zip.stat i = some e) :
    ∃ node, env.entryNode s 1 i = some node ∧ Shows node i e := by
  have hisDir : (e.node i).isDir = e.isDirectory := rfl
  rw [Env.entryNode, hm.made_entry he, Option.map_some, hisDir]
  cases hdir : e.isDirectory with
  | true => exact ⟨_, rfl, rfl, hdir.symm, rfl⟩
  | false => exact ⟨_, rfl, rfl, hdir.symm, rfl⟩

theorem find?_name {zip : Zip} {mem : MountMem} {s : Initrd} (hm : Mounted zip mem s) (c : CStr) :
    (s.nodes.filterMap (env.entryNode s 1)).find? (fun node => strcmp node.name c.1 = 0) =
      (s.nodes.find? fun i => (zip.stat i).any fun e => e.nodeName = c.1).bind
        (env.entryNode s 1) := by
  rw [List.find?_filterMap]
  have hname : ∀ i, ((env.entryNode s 1 i).any fun node => strcmp node.name c.1 = 0) =
      (zip.stat i).any fun e => e.nodeName = c.1 := by
    intro i
    cases he : zip.stat i with
    | none =>
        rw [Env.entryNode, hm.made, he]
        rfl
    | some e =>
        obtain ⟨node, hnode, hshows⟩ := entryNode_shows hm he
        rw [hnode, Option.any_some, Option.any_some, hshows.name]
        exact decide_eq_decide.mpr (strcmp_eq_zero (basename_noNul _ _) c.2)
  simp only [hname]

/-- After boot a name in the root is looked up in the list of the archive, which ends with
NULL unless the archive is empty. -/
theorem fsResolve_boot {k : Kernel} (hcalls : ∀ c ∈ env.moduleCalls, c.Registers)
    (hfew : env.moduleCalls.length < 2 ^ 31) (hboot : bootstrapMain env = .done k)
    (hword : ∀ read size zip, env.zip read size = some zip → zip.word = 0) :
    ∃ zip s, env.archive = some zip ∧ Mounted zip { env.mountMem with reader := true } s ∧
      (zip.entries ≠ [] → env.nodesHead = 0) ∧
      (env.nodesHead = 0 → ∀ (c : CStr) (rest : List UInt8), slash ∉ c.1 →
        (fsResolve k.mounts.mountpoints (some (slash :: (c.1 ++ 0 :: rest)))).1 =
          match (((List.range zip.entries.length).filter env.mountMem.listNode).reverse.find?
            fun i => (zip.stat i).any fun e => e.nodeName = c.1).bind (env.entryNode s 1) with
          | some node => .found node
          | none => .error (-ENOENT)) := by
  obtain ⟨-, mp, zip, s, ino, ⟨harchive, hmount⟩, hmounts⟩ := bootstrapMain_done hcalls hfew hboot
  obtain ⟨hm, hend⟩ := initrdMount_mounted hmount
  refine ⟨zip, s, harchive, hm, head_eq_zero_of_mounted hmount, fun hhead c rest hc => ?_⟩
  have hresolve := fsResolve_root (rootMountpoint env mp s) rfl rfl rfl c hc rest
  rw [rootNode_children hm (hend.trans hhead) (hword _ _ zip harchive) 1, find?_name hm,
    hm.nodes] at hresolve
  rw [hmounts]
  exact hresolve

/-- The last entry of a name is found first. -/
theorem Env.LastNamed.find? {zip : Zip} {c : CStr} {i : Nat} {e : ZipEntry}
    (h : env.LastNamed zip c i e) :
    ((List.range zip.entries.length).filter env.mountMem.listNode).reverse.find?
      (fun i => (zip.stat i).any fun e => e.nodeName = c.1) = some i := by
  refine find?_reverse_range (List.getElem?_eq_some_iff.mp h.entry).1 h.listed ?_ ?_
  · rw [h.entry, Option.any_some, h.named, decide_eq_true rfl]
  · intro j hij _ hj
    obtain ⟨e', hstat, hname⟩ := (Option.any_eq_true _ _).mp hj
    exact h.last j e' hij hstat (of_decide_eq_true hname)

/-- It is what its name is resolved to. -/
theorem fsResolve_lastNamed {k : Kernel} (hcalls : ∀ c ∈ env.moduleCalls, c.Registers)
    (hfew : env.moduleCalls.length < 2 ^ 31) (hboot : bootstrapMain env = .done k)
    (hword : ∀ read size zip, env.zip read size = some zip → zip.word = 0) {zip : Zip}
    (harchive : env.archive = some zip) {c : CStr} (hc : slash ∉ c.1) (rest : List UInt8) {i : Nat}
    {e : ZipEntry} (h : env.LastNamed zip c i e) : ∃ node, Shows node i e ∧
      (fsResolve k.mounts.mountpoints (some (slash :: (c.1 ++ 0 :: rest)))).1 = .found node := by
  obtain ⟨zip', s, harchive', hm, hhead, hresolve⟩ := fsResolve_boot hcalls hfew hboot hword
  obtain rfl := Option.some.inj (harchive.symm.trans harchive')
  obtain ⟨node, hnode, hshows⟩ := entryNode_shows hm h.entry
  have hne : zip.entries ≠ [] := by
    intro hnil
    have hnone : zip.stat i = none := by rw [Zip.stat, hnil, List.getElem?_nil]
    cases hnone.symm.trans h.entry
  refine ⟨node, hshows, ?_⟩
  rw [hresolve (hhead hne) c rest hc, h.find?, Option.bind_some, hnode]

/-! ## What is found -/

/-- After boot a name in the root is that of the last entry that is called so, in whatever
directory it is.  That there is none is found if the list ends with NULL. -/
theorem root_finds {k : Kernel} (hcalls : ∀ c ∈ env.moduleCalls, c.Registers)
    (hfew : env.moduleCalls.length < 2 ^ 31) (hboot : bootstrapMain env = .done k)
    (hword : ∀ read size zip, env.zip read size = some zip → zip.word = 0) :
    ∃ zip, env.archive = some zip ∧ ∀ (c : CStr) (rest : List UInt8), slash ∉ c.1 →
      (∀ i e, env.LastNamed zip c i e → ∃ node, Shows node i e ∧
        (fsResolve k.mounts.mountpoints (some (slash :: (c.1 ++ 0 :: rest)))).1 = .found node) ∧
      (env.nodesHead = 0 →
        (∀ i e, zip.stat i = some e → env.mountMem.listNode i = true → e.nodeName ≠ c.1) →
        (fsResolve k.mounts.mountpoints (some (slash :: (c.1 ++ 0 :: rest)))).1 =
          .error (-ENOENT)) := by
  obtain ⟨zip, s, harchive, -, -, hresolve⟩ := fsResolve_boot hcalls hfew hboot hword
  refine ⟨zip, harchive, fun c rest hc => ⟨fun i e h => ?_, fun hhead hnone => ?_⟩⟩
  · exact fsResolve_lastNamed hcalls hfew hboot hword harchive hc rest h
  · have hfind : ((List.range zip.entries.length).filter env.mountMem.listNode).reverse.find?
        (fun i => (zip.stat i).any fun e => e.nodeName = c.1) = none := by
      rw [List.find?_eq_none]
      intro i hi hany
      obtain ⟨e, hstat, hname⟩ := (Option.any_eq_true _ _).mp hany
      exact hnone i e hstat (List.mem_filter.mp (List.mem_reverse.mp hi)).2
        (of_decide_eq_true hname)
    rw [hresolve hhead c rest hc, hfind, Option.bind_none]

theorem initEnv_word (read : UInt32 → UInt32 → Option (UInt32 × List UInt8)) (size : UInt32)
    (zip : Zip) (h : initEnv.zip read size = some zip) : zip.word = 0 := by
  obtain ⟨-, hzip⟩ := Option.ite_none_right_eq_some.mp h
  cases hzip
  rfl

theorem initEnv_lastNamed : initEnv.LastNamed initZip initName 2 initEntry := by
  refine ⟨rfl, by decide, rfl, ?_⟩
  intro j e' hj hstat
  have hend : initZip.stat j = none := List.getElem?_eq_none hj
  cases hend.symm.trans hstat

/-- `/init` is not the file of that name but `sbin/init`, which stands behind it. -/
theorem root_finds_init : ∃ k node, bootstrapMain initEnv = .done k ∧ Shows node 2 initEntry ∧
    (fsResolve k.mounts.mountpoints (some (asciiText ['/', 'i', 'n', 'i', 't'] ++ [0]))).1 =
      .found node := by
  obtain ⟨k, hboot⟩ := boots_of_bootable initEnv_calls (by decide) initEnv_mapped initEnv_bootable
  obtain ⟨zip, harchive, hfinds⟩ := root_finds initEnv_calls (by decide) hboot initEnv_word
  obtain rfl := Option.some.inj (harchive.symm.trans initEnv_archive)
  obtain ⟨node, hshows, hfound⟩ :=
    (hfinds initName [] (by decide)).1 2 initEntry initEnv_lastNamed
  exact ⟨k, node, hboot, hshows, hfound⟩

end StardustOS.Boot
