import StardustOS.Fs.NodeType
import StardustOS.Fs.PathKept

/-!
# Following links

A link holds a path, and `fs_node_read`, `fs_node_write` and `fs_node_vioctl` call
themselves for the node it resolves to.  `EndsIn` and `Endless` say where a chain
of links leads.

The code does not quite follow this chain.  It reads the text of a link into an
array on the stack and does not end it, so it resolves what stands there (`pathAt`);
it asks each link for the operation it wants of the node at the end; and it does not
count its calls.  `Goes` is one step of the way that it takes, and `walk` the whole
of it: the three functions give what its end gives (`fsNodeIo_walk`).  So all is well
exactly when that way is finite and stops as the chain of links does
(`linksFollowed_iff`).  Where every text is followed by a NUL and every link has the
operations, the way is the chain, and what is left is that the chain is not endless
(`linksFollowed_clean`).
-/

namespace StardustOS.Fs

open Libc
open Process (PATH_MAX)

/-! ## File systems with links -/

/-- A file system: the modes of its nodes, which operations they have, the texts of
its links, and what strings resolve to. -/
structure LinkFs (N : Type*) where
  mode : N → UInt32
  has : N → HasOpts
  text : N → CStr
  resolve : List UInt8 → Except ErrorCode N
  fits : ∀ n, (text n).1.length < PATH_MAX
  readable : ∀ n, nodeTypeGet (mode n) = FS_NODE_LINK → (has n).read = true

/-- What the operations of the nodes that are no links do. -/
structure Behaviour (σ N : Type*) where
  read : N → UInt32 → UInt32 → σ → Except ErrorCode Nat × List UInt8 × σ
  write : N → UInt32 → List UInt8 → UInt32 → σ → Except ErrorCode Nat × σ
  ioctl : N → Int → List UInt32 → σ → Except ErrorCode Nat × σ

namespace LinkFs

variable {σ N α : Type*} (G : LinkFs N) (B : Behaviour σ N) (stack : Nat → List UInt8)

def isLink (n : N) : Bool := nodeTypeGet (G.mode n) = FS_NODE_LINK

def isDir (n : N) : Bool := nodeTypeGet (G.mode n) = FS_NODE_DIR

/-- The string in the array `path` once the text of the link was read into it.
`stack d` is what is on the stack from there on at the link number `d` of a call. -/
def pathAt (d : Nat) (n : N) : List UInt8 :=
  cstr ((G.text n).1 ++ (stack d).drop (G.text n).1.length) 0

/-- The `read` operation of a node.  That of a link gives its text. -/
def readOp (n : N) (offset size : UInt32) (w : σ × Nat) :
    Except ErrorCode Nat × List UInt8 × σ × Nat :=
  if G.isLink n then (.ok (G.text n).1.length, (G.text n).1, w)
  else
    let (r, bytes, k) := B.read n offset size w.1
    (r, bytes, k, w.2)

/-- The nodes to the functions of `fs.c`, with the number of links that were
followed. -/
def nodes : CtlNodes (σ × Nat) N where
  mode n _ := G.mode n
  size n _ := UInt32.ofNat (G.text n).1.length
  opts n _ :=
    { openFd := none
      closeFd := none
      read := if (G.has n).read then some (G.readOp B) else none
      write :=
        if (G.has n).write then
          some fun n offset buff size w =>
            let (r, k) := B.write n offset buff size w.1
            (r, k, w.2)
        else none }
  fsResolve path w :=
    match path with
    | none => (.error (errno EINVAL EINVAL_range), w)
    | some buf => (G.resolve (cstr (buf ++ (stack w.2).drop buf.length) 0), w.1, w.2 + 1)
  ioctl n _ :=
    if (G.has n).ioctl then
      some fun n req ap w =>
        let (r, k) := B.ioctl n req ap w.1
        (r, k, w.2)
    else none

/-- The number of links does not count as a result. -/
def forget : Except ErrorCode Nat × α × σ × Nat → Except ErrorCode Nat × α × σ
  | (r, x, k, _) => (r, x, k)

/-- `fs_node_read`. -/
def read (depth : Nat) (n : N) (offset size : UInt32) (k : σ) :
    Option (Except ErrorCode Nat × List UInt8 × σ) :=
  ((G.nodes B stack).fsNodeRead depth n offset size (k, 0)).map forget

/-- `fs_node_write`. -/
def write (depth : Nat) (n : N) (offset : UInt32) (buff : List UInt8) (size : UInt32) (k : σ) :
    Option (Except ErrorCode Nat × Unit × σ) :=
  ((G.nodes B stack).fsNodeWrite depth n offset buff size (k, 0)).map forget

/-- `fs_node_vioctl`. -/
def vioctl (depth : Nat) (n : N) (req : Int) (ap : List UInt32) (k : σ) :
    Option (Except ErrorCode Nat × Unit × σ) :=
  ((G.nodes B stack).fsNodeVioctl depth n req ap (k, 0)).map forget

/-! ## What is wanted -/

/-- The chain of links from a node ends in a node that is no link. -/
inductive EndsIn : N → N → Prop where
  | here {m : N} (last : G.isLink m = false) : EndsIn m m
  | link {n n' m : N} (link : G.isLink n = true) (resolve : G.resolve (G.text n).1 = .ok n')
      (rest : EndsIn n' m) : EndsIn n m

/-- The chain of links never ends. -/
def Endless (n : N) : Prop :=
  ∃ f : Nat → N, f 0 = n ∧
    ∀ i, G.isLink (f i) = true ∧ G.resolve (G.text (f i)).1 = .ok (f (i + 1))

/-- The call on a node returns: what the call on the last node of the chain gives, or
an error for a chain without one. -/
structure Follows (call : Nat → N → σ → Option (Except ErrorCode Nat × α × σ)) (n : N) (k : σ) :
    Prop where
  returns : ∃ depth out, call depth n k = some out
  ended : ∀ m, G.EndsIn n m → ∀ depth out, call depth n k = some out → call 1 m k = some out
  endless : G.Endless n → ∀ depth out, call depth n k = some out → ∃ e, out.1 = .error e

universe u

/-- So do all three functions, whatever the operations of the other nodes do. -/
def LinksFollowed (n : N) : Prop :=
  ∀ (σ : Type u) (B : Behaviour σ N) (k : σ),
    (∀ offset size, G.Follows (fun depth n => G.read B stack depth n offset size) n k) ∧
    (∀ offset buff size, G.Follows (fun depth n => G.write B stack depth n offset buff size) n k) ∧
    ∀ req ap, G.Follows (fun depth n => G.vioctl B stack depth n req ap) n k

/-! ## The way that the code takes -/

/-- Where a call ends: with the operation of a node, or with an error. -/
inductive Outcome (N : Type*) where
  | calls (m : N)
  | fails (e : ErrorCode)

/-- The functions look at two operations: `read`, and the one that is wanted. -/
def able (op : HasOpts → Bool) (n : N) : Bool := (G.has n).read && op (G.has n)

/-- How the call on a node ends that is no link, or that has not the operations. -/
def endOf (op : HasOpts → Bool) (n : N) : Outcome N :=
  if G.able op n then if G.isDir n then .fails (errno EISDIR EISDIR_range) else .calls n
  else .fails (errno ENOSYS ENOSYS_range)

/-- The call that has followed `d` links goes on from the link `n` to `n'`. -/
structure Goes (op : HasOpts → Bool) (d : Nat) (n n' : N) : Prop where
  link : G.isLink n = true
  able : G.able op n = true
  resolve : G.resolve (G.pathAt stack d n) = .ok n'

/-- It goes on for ever. -/
def GoesOn (op : HasOpts → Bool) (n : N) : Prop :=
  ∃ f : Nat → N, f 0 = n ∧ ∀ i, G.Goes stack op i (f i) (f (i + 1))

/-- From the node `n`, after `d` links, it comes to `p` after `e` links and does not go
on from there. -/
inductive StopsAt (op : HasOpts → Bool) : Nat → N → Nat → N → Prop where
  | here {d : Nat} {n : N} (stop : ∀ n', ¬ G.Goes stack op d n n') : StopsAt op d n d n
  | link {d e : Nat} {n n' p : N} (go : G.Goes stack op d n n') (rest : StopsAt op (d + 1) n' e p) :
      StopsAt op d n e p

/-- How the call ends at a node from which it does not go on. -/
def stopOf (op : HasOpts → Bool) (d : Nat) (n : N) : Outcome N :=
  if G.isLink n && G.able op n then
    match G.resolve (G.pathAt stack d n) with
    | .error e => .fails e
    | .ok _ => .calls n
  else G.endOf op n

/-- The way is not endless.  Where the chain of links has an end, it stops there or with
the error of that end; where the chain has none, it stops with an error. -/
structure LeadsRight (op : HasOpts → Bool) (n : N) : Prop where
  finite : ¬ G.GoesOn stack op n
  ended : ∀ m, G.EndsIn n m → ∀ d p, G.StopsAt stack op 0 n d p →
    G.stopOf stack op d p = G.endOf op m
  endless : G.Endless n → ∀ d p, G.StopsAt stack op 0 n d p → ∃ e, G.stopOf stack op d p = .fails e

/-- How the call ends that has followed `d` links and comes to a node. -/
def walk (op : HasOpts → Bool) : Nat → Nat → N → Option (Outcome N)
  | 0, _, _ => none
  | depth + 1, d, n =>
      if G.isLink n && G.able op n then
        match G.resolve (G.pathAt stack d n) with
        | .error e => some (.fails e)
        | .ok m => walk op depth (d + 1) m
      else some (G.endOf op n)

/-- The same of the walk. -/
structure WalksRight (op : HasOpts → Bool) (n : N) : Prop where
  returns : ∃ depth o, G.walk stack op depth 0 n = some o
  ended : ∀ m, G.EndsIn n m → ∀ depth o, G.walk stack op depth 0 n = some o → o = G.endOf op m
  endless : G.Endless n → ∀ depth o, G.walk stack op depth 0 n = some o → ∃ e, o = .fails e

/-- What a call gives that ends so, for the operation `own`. -/
def Outcome.perform (own : N → σ → Except ErrorCode Nat × α × σ) (empty : α) (k : σ) :
    Outcome N → Except ErrorCode Nat × α × σ
  | .calls m => own m k
  | .fails e => (.error e, empty, k)

variable {G B stack}

theorem asInt_text (n : N) : asInt (.ok (G.text n).1.length) = .ok (G.text n).1.length := by
  have hfits : (G.text n).1.length < 4096 := G.fits n
  rw [asInt, dif_pos (by omega)]

/-- The three functions go the way of `walk`, and give what its end gives. -/
theorem fsNodeIo_walk {op : HasOpts → Bool} {own : N → σ → Except ErrorCode Nat × α × σ}
    {io : N → σ × Nat → Option (σ × Nat → Except ErrorCode Nat × α × σ × Nat)}
    (hset : ∀ n w, (io n w).isSome = op (G.has n))
    (hown : ∀ n w act, G.isLink n = false → io n w = some act → forget (act w) = own n w.1)
    (empty : α) (depth d : Nat) (n : N) (k : σ) :
    ((G.nodes B stack).fsNodeIo io empty depth n (k, d)).map forget =
      (G.walk stack op depth d n).map (Outcome.perform own empty k) := by
  induction depth generalizing d n with
  | zero => rfl
  | succ depth ih =>
      rw [Nodes.fsNodeIo, walk]
      cases hread : (G.has n).read with
      | false => simp [nodes, hread, able, endOf, Outcome.perform, forget]
      | true =>
          have hio := hset n (k, d)
          cases hop : io n (k, d) with
          | none =>
              rw [hop] at hio
              simp [nodes, hread, ← hio, able, endOf, Outcome.perform, forget]
          | some act =>
              rw [hop] at hio
              have hable : G.able op n = true := by simp [able, hread, ← hio]
              have hopts : ((G.nodes B stack).opts n (k, d)).read = some (G.readOp B) :=
                if_pos hread
              have hmode : (G.nodes B stack).mode n (k, d) = G.mode n := rfl
              cases hlink : G.isLink n with
              | true =>
                  have htype : nodeTypeGet (G.mode n) = FS_NODE_LINK := of_decide_eq_true hlink
                  have hpath : (G.nodes B stack).fsResolve (some (G.text n).1) (k, d) =
                      (G.resolve (G.pathAt stack d n), k, d + 1) := rfl
                  simp only [hopts, hmode, htype, readOp, hlink, asInt_text, hpath, hable, if_true,
                    Bool.and_self]
                  cases hres : G.resolve (G.pathAt stack d n) with
                  | error e => rfl
                  | ok m => exact ih (d + 1) m
              | false =>
                  have htype : nodeTypeGet (G.mode n) ≠ FS_NODE_LINK := of_decide_eq_false hlink
                  simp only [hopts, hmode, htype, hable, if_false, Bool.false_and,
                    Bool.false_eq_true, endOf, if_true, isDir, decide_eq_true_eq]
                  split
                  · rfl
                  · exact congrArg some (hown n (k, d) act hlink hop)

theorem read_walk (depth : Nat) (n : N) (offset size : UInt32) (k : σ) :
    G.read B stack depth n offset size k = (G.walk stack HasOpts.read depth 0 n).map
      (Outcome.perform (fun m k => B.read m offset size k) [] k) := by
  refine fsNodeIo_walk ?_ ?_ [] depth 0 n k
  · intro n w
    rw [Option.isSome_map]
    show (if (G.has n).read = true then some (G.readOp B) else none).isSome = _
    cases (G.has n).read with
    | false => rfl
    | true => rfl
  · intro n w act hlink hact
    obtain ⟨read, hread, rfl⟩ := Option.map_eq_some_iff.mp hact
    obtain ⟨-, hsome⟩ := Option.ite_none_right_eq_some.mp hread
    cases hsome
    show forget (G.readOp B n offset size w) = _
    rw [readOp, hlink]
    rfl

theorem write_walk (depth : Nat) (n : N) (offset : UInt32) (buff : List UInt8) (size : UInt32)
    (k : σ) : G.write B stack depth n offset buff size k =
      (G.walk stack HasOpts.write depth 0 n).map (Outcome.perform (fun m k =>
        ((B.write m offset buff size k).1, (), (B.write m offset buff size k).2)) () k) := by
  refine fsNodeIo_walk ?_ ?_ () depth 0 n k
  · intro n w
    rw [Option.isSome_map]
    simp only [nodes]
    cases (G.has n).write with
    | false => rfl
    | true => rfl
  · intro n w act hlink hact
    obtain ⟨write, hwrite, rfl⟩ := Option.map_eq_some_iff.mp hact
    obtain ⟨-, hsome⟩ := Option.ite_none_right_eq_some.mp hwrite
    cases hsome
    rfl

theorem vioctl_walk (depth : Nat) (n : N) (req : Int) (ap : List UInt32) (k : σ) :
    G.vioctl B stack depth n req ap k =
      (G.walk stack HasOpts.ioctl depth 0 n).map (Outcome.perform (fun m k =>
        ((B.ioctl m req ap k).1, (), (B.ioctl m req ap k).2)) () k) := by
  refine fsNodeIo_walk ?_ ?_ () depth 0 n k
  · intro n w
    rw [Option.isSome_map]
    simp only [nodes]
    cases (G.has n).ioctl with
    | false => rfl
    | true => rfl
  · intro n w act hlink hact
    obtain ⟨ioctl, hioctl, rfl⟩ := Option.map_eq_some_iff.mp hact
    obtain ⟨-, hsome⟩ := Option.ite_none_right_eq_some.mp hioctl
    cases hsome
    rfl

/-! ## The chain and the walk -/

variable {op : HasOpts → Bool} {n : N}

theorem EndsIn.last {m : N} (h : G.EndsIn n m) : G.isLink m = false := by
  induction h with
  | here last => exact last
  | link link resolve rest ih => exact ih

/-- The call on a node that is no link. -/
theorem walk_one {m : N} (hm : G.isLink m = false) :
    G.walk stack op 1 0 m = some (G.endOf op m) := by
  rw [walk, hm]
  rfl

section Follows

variable {own : N → σ → Except ErrorCode Nat × α × σ} {empty : α} {k : σ}
  {call : Nat → N → σ → Option (Except ErrorCode Nat × α × σ)}

theorem Follows.congr {call' : Nat → N → σ → Option (Except ErrorCode Nat × α × σ)}
    (h : G.Follows call n k) (heq : ∀ depth n k, call depth n k = call' depth n k) :
    G.Follows call' n k := by
  obtain rfl : call = call' := funext fun depth => funext fun n => funext fun k => heq depth n k
  exact h

/-- A walk that leads right makes the call come out right. -/
theorem WalksRight.follows (h : G.WalksRight stack op n)
    (hcall : ∀ depth n, call depth n k =
      (G.walk stack op depth 0 n).map (Outcome.perform own empty k)) : G.Follows call n k where
  returns := by
    obtain ⟨depth, o, ho⟩ := h.returns
    exact ⟨depth, _, by rw [hcall, ho]; rfl⟩
  ended m hm depth out hout := by
    rw [hcall] at hout ⊢
    obtain ⟨o, ho, rfl⟩ := Option.map_eq_some_iff.mp hout
    rw [walk_one hm.last, h.ended m hm depth o ho]
    rfl
  endless hn depth out hout := by
    rw [hcall] at hout
    obtain ⟨o, ho, rfl⟩ := Option.map_eq_some_iff.mp hout
    obtain ⟨e, rfl⟩ := h.endless hn depth o ho
    exact ⟨e, rfl⟩

open Classical in
/-- An operation that tells the node `b` from the others. -/
noncomputable def mark (b : N) (empty : α) (m : N) (k : σ) : Except ErrorCode Nat × α × σ :=
  (.ok (if m = b then 1 else 0), empty, k)

/-- The ends are told apart by these operations. -/
theorem Outcome.eq_of_perform {o o' : Outcome N} (n : N) (empty : α) (k : σ)
    (h : ∀ b, o.perform (mark b empty) empty k = o'.perform (mark b empty) empty k) : o = o' := by
  cases o with
  | calls a =>
      have ha := h a
      cases o' with
      | calls a' =>
          simp only [perform, mark, if_true, Prod.mk.injEq, Except.ok.injEq, and_true] at ha
          split at ha
          · rename_i heq
            rw [heq]
          · cases ha
      | fails e => cases (Prod.mk.inj ha).1
  | fails e =>
      have hn := h n
      cases o' with
      | calls a' => cases (Prod.mk.inj hn).1
      | fails e' => rw [Except.error.inj (Prod.mk.inj hn).1]

/-- A call that comes out right whatever the operations do walks right. -/
theorem walksRight_of_follows (empty : α) (k : σ)
    (h : ∀ b, G.Follows (fun depth n k =>
      (G.walk stack op depth 0 n).map (Outcome.perform (mark b empty) empty k)) n k) :
    G.WalksRight stack op n where
  returns := by
    obtain ⟨depth, out, hout⟩ := (h n).returns
    obtain ⟨o, ho, -⟩ := Option.map_eq_some_iff.mp hout
    exact ⟨depth, o, ho⟩
  ended m hm depth o ho := by
    refine Outcome.eq_of_perform n empty k ?_
    intro b
    have hend := (h b).ended m hm depth _ (by rw [ho]; rfl)
    rw [walk_one hm.last] at hend
    exact (Option.some.inj hend).symm
  endless hn depth o ho := by
    obtain ⟨e, he⟩ := (h n).endless hn depth _ (by rw [ho]; rfl)
    cases o with
    | calls m => cases he
    | fails e' => exact ⟨e', rfl⟩

end Follows

/-! ## The walk and the graph -/

theorem StopsAt.walk {d e : Nat} {p : N} (h : G.StopsAt stack op d n e p) :
    ∃ depth, G.walk stack op depth d n = some (G.stopOf stack op e p) := by
  induction h with
  | @here d n stop =>
      refine ⟨1, ?_⟩
      rw [LinkFs.walk, stopOf]
      cases hable : G.isLink n && G.able op n with
      | false => rfl
      | true =>
          obtain ⟨hlink, hop⟩ := Bool.and_eq_true_iff.mp hable
          cases hres : G.resolve (G.pathAt stack d n) with
          | error e => rfl
          | ok m => exact absurd ⟨hlink, hop, hres⟩ (stop m)
  | link go rest ih =>
      obtain ⟨depth, hdepth⟩ := ih
      refine ⟨depth + 1, ?_⟩
      rw [LinkFs.walk, go.link, go.able, go.resolve]
      exact hdepth

theorem stopsAt_of_walk {depth d : Nat} {o : Outcome N}
    (h : G.walk stack op depth d n = some o) :
    ∃ e p, G.StopsAt stack op d n e p ∧ o = G.stopOf stack op e p := by
  induction depth generalizing d n with
  | zero => cases h
  | succ depth ih =>
      rw [walk] at h
      cases hable : G.isLink n && G.able op n with
      | false =>
          rw [hable] at h
          refine ⟨d, n, .here fun n' hgo => ?_, ?_⟩
          · rw [hgo.link, hgo.able] at hable
            cases hable
          · rw [stopOf, hable]
            exact (Option.some.inj h).symm
      | true =>
          obtain ⟨hlink, hop⟩ := Bool.and_eq_true_iff.mp hable
          rw [hable] at h
          cases hres : G.resolve (G.pathAt stack d n) with
          | error e =>
              rw [hres] at h
              refine ⟨d, n, .here fun n' hgo => ?_, ?_⟩
              · cases hres.symm.trans hgo.resolve
              · rw [stopOf, hable, hres]
                exact (Option.some.inj h).symm
          | ok m =>
              rw [hres] at h
              obtain ⟨e, p, hstop, ho⟩ := ih h
              exact ⟨e, p, .link ⟨hlink, hop, hres⟩ hstop, ho⟩

/-- A way that goes on for ever is never walked to its end. -/
theorem walk_of_goes {f : Nat → N} (hf : ∀ i, G.Goes stack op i (f i) (f (i + 1)))
    (depth d : Nat) : G.walk stack op depth d (f d) = none := by
  induction depth generalizing d with
  | zero => rfl
  | succ depth ih =>
      rw [walk, (hf d).link, (hf d).able, (hf d).resolve]
      exact ih (d + 1)

/-- A way that does not go on for ever stops. -/
theorem exists_stopsAt (h : ¬ G.GoesOn stack op n) : ∃ e p, G.StopsAt stack op 0 n e p := by
  let next := fun y x : Nat × N => G.Goes stack op x.1 x.2 y.2 ∧ y.1 = x.1 + 1
  have hacc : Acc next (0, n) := by
    by_contra hacc
    obtain ⟨f, hstart, hf⟩ := not_acc_iff_exists_descending_chain.mp hacc
    have hcount : ∀ i, (f i).1 = i := by
      intro i
      induction i with
      | zero => rw [hstart]
      | succ i ih => rw [(hf i).2, ih]
    refine h ⟨fun i => (f i).2, congrArg Prod.snd hstart, fun i => ?_⟩
    have hgo := (hf i).1
    rwa [hcount i] at hgo
  -- the induction is on the steps that are left from a pair
  suffices hstops : ∀ x, Acc next x → ∃ e p, G.StopsAt stack op x.1 x.2 e p from
    hstops (0, n) hacc
  intro x hx
  induction hx with
  | intro x hx ih =>
      by_cases hgo : ∃ n', G.Goes stack op x.1 x.2 n'
      · obtain ⟨n', hgo⟩ := hgo
        obtain ⟨e, p, hstop⟩ := ih (x.1 + 1, n') ⟨hgo, rfl⟩
        exact ⟨e, p, .link hgo hstop⟩
      · exact ⟨x.1, x.2, .here (not_exists.mp hgo)⟩

theorem walksRight_iff : G.WalksRight stack op n ↔ G.LeadsRight stack op n := by
  constructor
  · intro h
    refine ⟨?_, ?_, ?_⟩
    · rintro ⟨f, rfl, hf⟩
      obtain ⟨depth, o, ho⟩ := h.returns
      cases (walk_of_goes hf depth 0).symm.trans ho
    · intro m hm d p hstop
      obtain ⟨depth, hdepth⟩ := hstop.walk
      exact h.ended m hm depth _ hdepth
    · intro hn d p hstop
      obtain ⟨depth, hdepth⟩ := hstop.walk
      exact h.endless hn depth _ hdepth
  · intro h
    refine ⟨?_, ?_, ?_⟩
    · obtain ⟨e, p, hstop⟩ := exists_stopsAt h.finite
      obtain ⟨depth, hdepth⟩ := hstop.walk
      exact ⟨depth, _, hdepth⟩
    · intro m hm depth o ho
      obtain ⟨e, p, hstop, rfl⟩ := stopsAt_of_walk ho
      exact h.ended m hm e p hstop
    · intro hn depth o ho
      obtain ⟨e, p, hstop, rfl⟩ := stopsAt_of_walk ho
      exact h.endless hn e p hstop

/-! ## Links that are read as they should be -/

/-- No link lacks an operation, and behind its text stands a NUL, at whichever place of
a call it is read. -/
structure Clean (G : LinkFs N) (stack : Nat → List UInt8) : Prop where
  has : ∀ n, G.isLink n = true → G.has n = ⟨true, true, true⟩
  nul : ∀ d n, G.isLink n = true → byteAt (stack d) (G.text n).1.length = 0

/-- With a NUL behind it the text is what is resolved. -/
theorem pathAt_of_nul {d : Nat} (h : byteAt (stack d) (G.text n).1.length = 0) :
    G.pathAt stack d n = (G.text n).1 := by
  rw [pathAt]
  rcases Nat.lt_or_ge (G.text n).1.length (stack d).length with hlt | hge
  · have hnul : (stack d)[(G.text n).1.length] = 0 := by
      simpa [byteAt, List.getD_eq_getElem?_getD, List.getElem?_eq_getElem hlt] using h
    rw [List.drop_eq_getElem_cons hlt, hnul]
    exact cstr_append [] (G.text n).2
  · rw [List.drop_eq_nil_of_le hge, List.append_nil, cstr, List.drop_zero,
      List.takeWhile_eq_self_iff]
    intro b hb
    have hne : b ≠ 0 := by
      rintro rfl
      exact (G.text n).2 hb
    simpa using hne

/-- Then the code goes from each link to where the text leads. -/
theorem Clean.goes_iff (h : G.Clean stack) (hop : op ⟨true, true, true⟩ = true) {d : Nat} {n' : N} :
    G.Goes stack op d n n' ↔ G.isLink n = true ∧ G.resolve (G.text n).1 = .ok n' := by
  constructor
  · rintro ⟨hlink, -, hres⟩
    rw [pathAt_of_nul (h.nul d n hlink)] at hres
    exact ⟨hlink, hres⟩
  · rintro ⟨hlink, hres⟩
    refine ⟨hlink, ?_, ?_⟩
    · rw [able, h.has n hlink, hop]
      rfl
    · rw [pathAt_of_nul (h.nul d n hlink)]
      exact hres

theorem Clean.stopsAt (h : G.Clean stack) (hop : op ⟨true, true, true⟩ = true) {m p : N}
    (hm : G.EndsIn n m) {d e : Nat} (hstop : G.StopsAt stack op d n e p) :
    G.stopOf stack op e p = G.endOf op m := by
  induction hm generalizing d with
  | here last =>
      cases hstop with
      | here stop =>
          rw [stopOf, last]
          rfl
      | link go rest => cases last.symm.trans go.link
  | link link resolve rest ih =>
      cases hstop with
      | here stop => exact absurd ((h.goes_iff hop).mpr ⟨link, resolve⟩) (stop _)
      | link go rest' =>
          obtain rfl := Except.ok.inj (resolve.symm.trans ((h.goes_iff hop).mp go).2)
          exact ih rest'

theorem Clean.leadsRight_iff (h : G.Clean stack) (hop : op ⟨true, true, true⟩ = true) :
    G.LeadsRight stack op n ↔ ¬ G.Endless n := by
  have hgoes : G.GoesOn stack op n ↔ G.Endless n := by
    simp only [GoesOn, Endless, h.goes_iff hop]
  constructor
  · intro hright
    exact hgoes.not.mp hright.finite
  · intro hn
    exact ⟨hgoes.not.mpr hn, fun m hm d p => h.stopsAt hop hm, fun hend => absurd hend hn⟩

/-! ## What it comes to -/

/-- Nodes whose operations tell `b` from the others. -/
noncomputable def marking (b : N) : Behaviour σ N where
  read n _ _ k := mark b [] n k
  write n _ _ _ k := ((mark b () n k).1, k)
  ioctl n _ _ k := ((mark b () n k).1, k)

theorem linksFollowed_walks (G : LinkFs N) (stack : Nat → List UInt8) (n : N) :
    LinksFollowed.{u} G stack n ↔
      G.WalksRight stack HasOpts.read n ∧ G.WalksRight stack HasOpts.write n ∧
        G.WalksRight stack HasOpts.ioctl n := by
  constructor
  · intro h
    have hmarked := fun b => h PUnit (marking b) ⟨⟩
    refine ⟨walksRight_of_follows ([] : List UInt8) PUnit.unit fun b => ?_,
      walksRight_of_follows () PUnit.unit fun b => ?_,
      walksRight_of_follows () PUnit.unit fun b => ?_⟩
    · exact ((hmarked b).1 0 0).congr fun depth n k => read_walk depth n 0 0 k
    · exact ((hmarked b).2.1 0 [] 0).congr fun depth n k => write_walk depth n 0 [] 0 k
    · exact ((hmarked b).2.2 0 []).congr fun depth n k => vioctl_walk depth n 0 [] k
  · rintro ⟨hread, hwrite, hioctl⟩ σ B k
    refine ⟨fun offset size => ?_, fun offset buff size => ?_, fun req ap => ?_⟩
    · exact hread.follows fun depth n => read_walk depth n offset size k
    · exact hwrite.follows fun depth n => write_walk depth n offset buff size k
    · exact hioctl.follows fun depth n => vioctl_walk depth n req ap k

/-- Where the links are read as they should be, that is when their chain is not
endless. -/
theorem linksFollowed_clean (h : G.Clean stack) :
    LinksFollowed.{u} G stack n ↔ ¬ G.Endless n := by
  rw [linksFollowed_walks, walksRight_iff, walksRight_iff, walksRight_iff, h.leadsRight_iff rfl,
    h.leadsRight_iff rfl, h.leadsRight_iff rfl, and_self, and_self]

end LinkFs

end StardustOS.Fs
