import Armsx3.Vfs.Escape

/-!
# Mounts — guest paths as host paths

`vfs::mount` and `vfs::unmount` keep a tree of directories, and `vfs::get` walks it.  Over them stands the table of what
is mounted where, by the names on the way from the root.
-/

namespace Armsx3.Vfs

open Function List

abbrev Name := List UInt8

/-! ## The tree -/

/-- `vfs_directory`; the path is empty if nothing is mounted there. -/
structure Directory where
  path : Name := []
  dirs : Name → Option Directory := fun _ => none

/-- The fragments of a path, each with what is left of the path behind it.  `inside` says that the byte before belongs
to a fragment. -/
def fragments : Bool → Name → List (Name × Name)
  | _, [] => []
  | inside, c :: rest =>
    if c = 0x2f then fragments false rest
    else if inside then fragments true rest
    else (c :: rest.takeWhile (· ≠ 0x2f), rest.dropWhile (· ≠ 0x2f)) :: fragments true rest

def splitSv (vpath : Name) : List Name := (vpath.splitOn 0x2f).filter (· ≠ [])

namespace Directory

def lookup : Directory → List Name → Option Directory
  | d, [] => some d
  | d, n :: ns => (d.dirs n).bind fun child => child.lookup ns

def alter (f : Directory → Directory) : List Name → Directory → Directory
  | [], d => f d
  | n :: ns, d => { d with dirs := update d.dirs n (some (alter f ns ((d.dirs n).getD {}))) }

/-- What `vfs::mount` does at a name; the names in `list` lead to the current directory, the last one first. -/
def mountStep (s : Directory × List Name) (name : Name) : Directory × List Name :=
  if name = [0x2e] then s
  else if name = [0x2e, 0x2e] then (s.1, s.2.tail)
  else (s.1.alter id (name :: s.2).reverse, name :: s.2)

/-- The path that is stored, with `resolve_path` as the identity. -/
def hostPath (path : Name) (isDir : Bool) : Name :=
  if path = [0x2f] then [0x2f]
  else if isDir ∧ path.getLast? ≠ some 0x2f then path ++ [0x2f]
  else path

/-- `vfs::mount`; the empty path and relative paths are refused. -/
def mount (root : Directory) (vpath path : Name) (isDir : Bool) : Directory × Bool :=
  if vpath.head? ≠ some 0x2f then (root, false)
  else
    let s := ((fragments false vpath).map Prod.fst).foldl mountStep (root, [])
    (s.1.alter (fun d => { d with path := hostPath path isDir }) s.2.reverse, true)

def unmountChildren : List Name → Directory → Directory
  | [], d => d
  | [n], d => { d with dirs := update d.dirs n none }
  | n :: m :: ns, d =>
    match d.dirs n with
    | some child => { d with dirs := update d.dirs n (some (unmountChildren (m :: ns) child)) }
    | none => d

def unmount (root : Directory) (vpath : Name) : Directory × Bool :=
  if splitSv vpath = [] then (root, false) else (unmountChildren (splitSv vpath) root, true)

/-! ## `vfs::get` -/

structure Walk where
  list : List (Option Directory)
  result : List Name

/-- What is done at a name, with `vpath` behind it; `nowhere` is the location that never exists. -/
def getStep (nowhere : Name) (w : Walk) : Name × Name → Except Name Walk
  | (name, vpath) =>
    if name = [0x2e] then .ok w
    else if name = [0x2e, 0x2e] then .ok (if w.list.length = 1 then w else ⟨w.list.tail, w.result.tail⟩)
    else
      match w.list.head?.join.bind fun last => last.dirs name with
      | none => .ok ⟨none :: w.list, name :: w.result⟩
      | some dir =>
        -- the host's root is neither escaped nor processed
        if dir.path = [0x2f] then .error (if vpath.length ≤ 1 then nowhere else vpath.tail)
        else .ok ⟨some dir :: w.list, name :: w.result⟩

/-- The latest valid mount path, and how many fragments lead to it. -/
def resultBase (single : Bool) : List (Option Directory) → Option (Name × Nat)
  | [] => none
  | none :: list => resultBase single list
  | some dir :: list => if dir.path ≠ [] ∨ single then some (dir.path, list.length) else resultBase single list

/-- `vfs::get`; what is left of an absolute path behind its fragments is not empty if it ends in a slash. -/
def get (root : Directory) (nowhere vpath : Name) : Name :=
  if vpath.head? ≠ some 0x2f then nowhere
  else
    match (fragments false vpath).foldlM (getStep nowhere) ⟨[some root], []⟩ with
    | .error out => out
    | .ok w =>
      match resultBase (w.list.length = 1) w.list with
      | none => []
      | some (base, erased) =>
        let result := w.result.reverse.drop erased ++ if vpath.getLast? = some 0x2f then [[]] else []
        if base = [] then [] else base ++ [0x2f].intercalate (result.map fun sv => escape sv false)

end Directory

/-! ## What is mounted where -/

inductive Call where
  | mount (vpath path : Name) (isDir : Bool)
  | unmount (vpath : Name)

def Call.perform (root : Directory) : Call → Directory
  | mount vpath path isDir => (root.mount vpath path isDir).1
  | unmount vpath => (root.unmount vpath).1

def tree (calls : List Call) : Directory := calls.foldl Call.perform {}

/-- The names of a path, the last one first, without `.` and with `..` taken back. -/
def normaliseStep (names : List Name) (name : Name) : List Name :=
  if name = [0x2e] then names else if name = [0x2e, 0x2e] then names.tail else name :: names

def normalise (vpath : Name) : List Name := (splitSv vpath).foldl normaliseStep []

/-- The host paths by the names that lead to them, the last one first; nothing is mounted at the others. -/
abbrev Table := List Name → Name

def Table.perform (m : Table) : Call → Table
  | .mount vpath path isDir =>
    if vpath.head? = some 0x2f then update m (normalise vpath) (Directory.hostPath path isDir) else m
  | .unmount vpath => fun names => if splitSv vpath ≠ [] ∧ splitSv vpath <+: names.reverse then [] else m names

def mounted (calls : List Call) : Table := calls.foldl Table.perform fun _ => []

def deepest (m : Table) (names : List Name) : Option (List Name) := names.tails.find? fun anc => m anc ≠ []

def below (host : Name) (names : List Name) (slash : Bool) : Name :=
  if names = [] then host
  else host ++ (if host.getLast? = some 0x2f then [] else [0x2f]) ++
    [0x2f].intercalate (names.map fun name => escape name false) ++ if slash then [0x2f] else []

/-- The result is empty, or the host path of the deepest mounted ancestor with the other names below it, none of which
leads anywhere else. -/
def Confined (m : Table) (vpath out : Name) : Prop :=
  match deepest m (normalise vpath) with
  | none => out = []
  | some anc =>
    let names := (normalise vpath).reverse.drop anc.length
    out = below (m anc) names (vpath.getLast? = some 0x2f) ∧ ∀ name ∈ names.map fun name => escape name false,
        name ≠ [0x2e] ∧ name ≠ [0x2e, 0x2e] ∧ 0x2f ∉ name ∧ 0x5c ∉ name

instance (m : Table) (vpath out : Name) : Decidable (Confined m vpath out) := by
  unfold Confined
  split <;> infer_instance

/-! ## The fragments of a path -/

theorem fragments_spec (vpath : Name) : (∃ behind, vpath.splitOn 0x2f = vpath.takeWhile (· ≠ 0x2f) :: behind ∧
      (fragments true vpath).map Prod.fst = behind.filter (· ≠ [])) ∧
      (fragments false vpath).map Prod.fst = splitSv vpath := by
  induction vpath with
  | nil => exact ⟨⟨[], rfl, rfl⟩, rfl⟩
  | cons c rest ih =>
    have ⟨⟨behind, hsplit, htrue⟩, hfalse⟩ := ih
    have hcons := splitOnP_cons_eq_if_modifyHead (p := (· == 0x2f)) c rest
    unfold splitSv at hfalse ⊢
    unfold splitOn at hsplit hfalse ⊢
    rw [hcons]
    by_cases hc : c = 0x2f
    · subst hc
      exact ⟨⟨_, rfl, hfalse⟩, hfalse⟩
    rw [hsplit] at hfalse ⊢
    simp only [fragments, hc, beq_iff_eq, if_false, takeWhile_cons, ne_eq, not_false_eq_true, decide_true, if_true,
      modifyHead_cons]
    exact ⟨⟨behind, rfl, htrue⟩, by simpa using htrue⟩

variable {c : UInt8}

theorem mem_fragments {inside : Bool} {vpath : Name} {f : Name × Name} (hf : f ∈ fragments inside vpath)
    (hc : c ∈ f.1) : c ≠ 0x2f ∧ c ∈ vpath := by
  induction vpath generalizing inside with
  | nil => cases hf
  | cons b rest ih =>
    have hstep : f ∈ fragments false rest ∨ f ∈ fragments true rest →  c ≠ 0x2f ∧ c ∈ b :: rest := by
      rintro (h | h) <;> exact (ih h).imp_right (mem_cons_of_mem b)
    unfold fragments at hf
    split at hf
    · exact hstep (.inl hf)
    rename_i hb
    split at hf
    · exact hstep (.inr hf)
    rcases mem_cons.mp hf with rfl | hf
    · rcases mem_cons.mp hc with rfl | hc
      · exact ⟨hb, mem_cons_self⟩
      · exact ⟨by simpa using mem_takeWhile_imp hc, mem_cons_of_mem b ((takeWhile_sublist _).subset hc)⟩
    · exact hstep (.inr hf)

variable {name : Name}

theorem mem_foldl_normaliseStep {names : List Name} {fs : List Name}
    (h : name ∈ fs.foldl normaliseStep names) : name ∈ names ∨ (name ∈ fs ∧ name ≠ [0x2e] ∧ name ≠ [0x2e, 0x2e]) := by
  induction fs generalizing names with
  | nil => exact .inl h
  | cons f fs ih =>
    rcases ih h with hin | ⟨hin, hne⟩
    · unfold normaliseStep at hin
      split at hin
      · exact .inl hin
      rename_i hdot
      split_ifs at hin with hdots
      · exact .inl (mem_of_mem_tail hin)
      · rcases mem_cons.mp hin with rfl | hin
        · exact .inr ⟨mem_cons_self, hdot, hdots⟩
        · exact .inl hin
    · exact .inr ⟨mem_cons_of_mem f hin, hne⟩

/-! ## The tree has what is mounted -/

namespace Directory

def pathAt (d : Directory) (ns : List Name) : Name := ((d.lookup ns).map path).getD []

theorem pathAt_empty (ns : List Name) : pathAt {} ns = [] := by cases ns <;> rfl

theorem pathAt_cons (d : Directory) (n : Name) (ns : List Name) :
    d.pathAt (n :: ns) = ((d.dirs n).getD {}).pathAt ns := by
  cases hn : d.dirs n with
  | none =>
    rw [Option.getD_none, pathAt_empty, pathAt, lookup, hn]
    rfl
  | some =>
    rw [pathAt, lookup, hn]
    rfl

theorem pathAt_alter (g : Name → Name) (ns ms : List Name) (d : Directory) :
    (d.alter (fun d => { d with path := g d.path }) ns).pathAt ms = if ms = ns then g (d.pathAt ns) else d.pathAt ms := by
  induction ns generalizing d ms with
  | nil => cases ms <;> rfl
  | cons n ns ih =>
    cases ms with
    | nil => rfl
    | cons m =>
      rw [pathAt_cons, pathAt_cons, pathAt_cons]
      simp only [alter, cons.injEq]
      by_cases hmn : m = n
      · subst hmn
        rw [update_self, Option.getD_some, ih]
        simp only [true_and]
      · rw [update_of_ne hmn, if_neg fun hand => hmn hand.1]

theorem pathAt_unmountChildren (es ms : List Name) (d : Directory) :
    (unmountChildren es d).pathAt ms = if es ≠ [] ∧ es <+: ms then [] else d.pathAt ms := by
  induction es generalizing d ms with
  | nil => simp [unmountChildren]
  | cons n es ih =>
    cases ms with
    | nil =>
      cases es with
      | nil => rfl
      | cons =>
        rw [unmountChildren]
        cases d.dirs n <;> rfl
    | cons m =>
      cases es with
      | nil =>
        rw [unmountChildren, pathAt_cons, pathAt_cons]
        by_cases hnm : n = m
        · subst hnm
          simp [pathAt_empty]
        · simp [update_of_ne (Ne.symm hnm), hnm]
      | cons =>
        rw [unmountChildren]
        cases hn : d.dirs n with
        | none =>
          by_cases hnm : n = m
          · subst hnm
            simp [pathAt_cons, hn, pathAt_empty]
          · simp [hnm]
        | some =>
          rw [pathAt_cons, pathAt_cons]
          by_cases hnm : n = m
          · subst hnm
            simp [ih, hn]
          · simp [update_of_ne (Ne.symm hnm), hnm]

theorem foldl_mountStep (fs : List Name) (s : Directory × List Name) :
    (∀ ms, (fs.foldl mountStep s).1.pathAt ms = s.1.pathAt ms) ∧
      (fs.foldl mountStep s).2 = fs.foldl normaliseStep s.2 := by
  induction fs generalizing s with
  | nil => exact ⟨fun _ => rfl, rfl⟩
  | cons f fs ih =>
    have hstep : (∀ ms, (mountStep s f).1.pathAt ms = s.1.pathAt ms) ∧ (mountStep s f).2 = normaliseStep s.2 f := by
      unfold mountStep normaliseStep
      split
      · exact ⟨fun _ => rfl, rfl⟩
      split
      · exact ⟨fun _ => rfl, rfl⟩
      have hid : id = fun d : Directory => { d with path := id d.path } := by
        funext d
        cases d
        rfl
      refine ⟨fun ms => ?_, rfl⟩
      rw [hid, pathAt_alter]
      split_ifs with heq
      · rw [heq]
        rfl
      · rfl
    have hrest := ih (mountStep s f)
    rw [hstep.2] at hrest
    exact ⟨fun ms => (hrest.1 ms).trans (hstep.1 ms), hrest.2⟩

end Directory

theorem tree_pathAt (calls : List Call) (names : List Name) :
    (tree calls).pathAt names.reverse = mounted calls names := by
  induction calls using reverseRecOn generalizing names with
  | nil => exact Directory.pathAt_empty _
  | append_singleton calls call ih =>
    unfold tree mounted at ih ⊢
    rw [foldl_concat, foldl_concat]
    cases call with
    | mount vpath path isDir =>
      simp only [Call.perform, Directory.mount, Table.perform]
      by_cases hhead : vpath.head? = some 0x2f
      · have ⟨hpath, hnames⟩ := Directory.foldl_mountStep ((fragments false vpath).map Prod.fst)
          (calls.foldl Call.perform {}, [])
        rw [if_neg (not_not_intro hhead), if_pos hhead, update_apply]
        refine (Directory.pathAt_alter (fun _ => Directory.hostPath path isDir) _ _ _).trans ?_
        rw [hpath, hnames, (fragments_spec vpath).2, ih]
        simp only [reverse_inj]
        rfl
      · rw [if_pos hhead, if_neg hhead]
        exact ih names
    | unmount vpath =>
      simp only [Call.perform, Directory.unmount, Table.perform]
      by_cases hnil : splitSv vpath = []
      · rw [if_pos hnil, if_neg fun hand => hand.1 hnil]
        exact ih names
      · rw [if_neg hnil]
        exact (Directory.pathAt_unmountChildren _ _ _).trans (by rw [ih])

theorem mounted_ne_root {calls : List Call}
    (hcalls : ∀ vpath path isDir, .mount vpath path isDir ∈ calls → Directory.hostPath path isDir ≠ [0x2f])
    (names : List Name) : mounted calls names ≠ [0x2f] := by
  induction calls using reverseRecOn generalizing names with
  | nil => exact cons_ne_nil _ _ |>.symm
  | append_singleton calls call ih =>
    have ih := ih fun vpath path isDir hin => hcalls vpath path isDir (mem_append_left _ hin)
    unfold mounted at ih ⊢
    rw [foldl_concat]
    cases call with
    | mount vpath path isDir =>
      simp only [Table.perform]
      split
      · rw [update_apply]
        split
        · exact hcalls vpath path isDir (mem_append_right _ mem_cons_self)
        · exact ih names
      · exact ih names
    | unmount =>
      simp only [Table.perform]
      split
      · exact (cons_ne_nil _ _).symm
      · exact ih names

/-! ## `vfs::get` looks for the deepest mount -/

namespace Directory

variable {root : Directory} {nowhere : Name}

def walkAt (root : Directory) (names : List Name) : Walk := ⟨names.tails.map fun r => root.lookup r.reverse, names⟩

theorem walkAt_cons (n : Name) (names : List Name) :
    root.walkAt (n :: names) = ⟨root.lookup (n :: names).reverse :: (root.walkAt names).list, n :: names⟩ := by
  simp [walkAt]

theorem lookup_concat (d : Directory) (ns : List Name) (n : Name) :
    d.lookup (ns ++ [n]) = (d.lookup ns).bind fun last => last.dirs n := by
  induction ns generalizing d with
  | nil => simp [lookup]
  | cons m ns ih =>
    rw [cons_append, lookup, lookup]
    cases d.dirs m with
    | none => rfl
    | some child => exact ih child

theorem getStep_walkAt (hroot : ∀ ns, root.pathAt ns ≠ [0x2f]) (names : List Name) (f : Name × Name) :
    getStep nowhere (root.walkAt names) f = .ok (root.walkAt (normaliseStep names f.1)) := by
  have hhead : (root.walkAt names).list.head?.join = root.lookup names.reverse := by cases names <;> rfl
  unfold getStep normaliseStep
  simp only [hhead, ← lookup_concat, ← reverse_cons]
  split
  · rfl
  split
  · cases names with
    | nil => rfl
    | cons =>
      rw [if_neg (by simp [walkAt]), walkAt_cons]
      rfl
  rw [walkAt_cons]
  cases hdir : root.lookup (f.1 :: names).reverse with
  | none => rfl
  | some dir =>
    have hne : dir.path ≠ [0x2f] := by
      have hpath := hroot (f.1 :: names).reverse
      rw [pathAt, hdir] at hpath
      exact hpath
    simp only [if_neg hne]
    rfl

theorem foldlM_getStep (hroot : ∀ ns, root.pathAt ns ≠ [0x2f]) (fs : List (Name × Name)) (names : List Name) :
    fs.foldlM (getStep nowhere) (root.walkAt names) = .ok (root.walkAt ((fs.map Prod.fst).foldl normaliseStep names)) := by
  induction fs generalizing names with
  | nil => rfl
  | cons f fs ih =>
    rw [foldlM_cons, getStep_walkAt hroot]
    exact ih _

theorem resultBase_walkAt (root : Directory) (names : List Name) : resultBase false (root.walkAt names).list =
      (names.tails.find? fun r => root.pathAt r.reverse ≠ []).map fun r => (root.pathAt r.reverse, r.length) := by
  have hstep : ∀ (r : List Name) list, list.length = r.length → resultBase false (root.lookup r.reverse :: list) =
      if root.pathAt r.reverse ≠ [] then some (root.pathAt r.reverse, r.length) else resultBase false list := by
    intro r list hlen
    unfold pathAt
    cases root.lookup r.reverse with
    | none => rfl
    | some => simp [resultBase, hlen]
  induction names with
  | nil =>
    refine (hstep [] [] rfl).trans ?_
    by_cases hpath : root.pathAt [] = [] <;> simp [hpath, resultBase]
  | cons n names ih =>
    rw [walkAt_cons, hstep _ _ (by simp [walkAt]), tails_cons, find?_cons]
    by_cases hpath : root.pathAt (n :: names).reverse = []
    · rw [if_neg (not_not_intro hpath), ih, decide_eq_false (not_not_intro hpath)]
    · rw [if_pos hpath, decide_eq_true hpath]
      rfl

end Directory

theorem get_tree {calls : List Call} {nowhere vpath : Name}
    (hcalls : ∀ vpath path isDir, .mount vpath path isDir ∈ calls → Directory.hostPath path isDir ≠ [0x2f])
    (habs : vpath.head? = some 0x2f) :
    (tree calls).get nowhere vpath = match deepest (mounted calls) (normalise vpath) with
      | none => []
      | some anc => mounted calls anc ++ [0x2f].intercalate (((normalise vpath).reverse.drop anc.length ++
          if vpath.getLast? = some 0x2f then [[]] else []).map fun sv => escape sv false) := by
  have hroot : ∀ ns, (tree calls).pathAt ns ≠ [0x2f] := by
    intro ns
    have hne := mounted_ne_root hcalls ns.reverse
    rw [← tree_pathAt, reverse_reverse] at hne
    exact hne
  have hfold : (fragments false vpath).foldlM (Directory.getStep nowhere) ⟨[some (tree calls)], []⟩ = .ok _ :=
    Directory.foldlM_getStep hroot (fragments false vpath) []
  have hnames : ((fragments false vpath).map Prod.fst).foldl normaliseStep [] = normalise vpath := by
    rw [(fragments_spec vpath).2]
    rfl
  generalize hn : normalise vpath = names at hnames ⊢
  rw [hnames] at hfold
  have hbase := (tree calls).resultBase_walkAt names
  simp only [tree_pathAt] at hbase
  unfold Directory.get
  simp only [if_neg (not_not_intro habs), hfold]
  cases names with
  | nil =>
    -- the root is taken even if nothing is mounted there
    have hpath : (tree calls).path = mounted calls [] := tree_pathAt calls []
    by_cases hnil : mounted calls [] = [] <;>
      simp [Directory.walkAt, Directory.lookup, Directory.resultBase, deepest, hpath, hnil]
  | cons n names =>
    have hsingle : decide (((tree calls).walkAt (n :: names)).list.length = 1) = false := by simp [Directory.walkAt]
    rw [hsingle, hbase, deepest]
    cases hfind : (n :: names).tails.find? fun anc => mounted calls anc ≠ [] with
    | none => rfl
    | some anc =>
      have hne : mounted calls anc ≠ [] := by simpa using find?_some hfind
      simp only [Option.map_some, if_neg hne]
      rfl

/-! ## Nothing else is named -/

theorem mem_escapeLoop (hc : c ∈ escapeLoop false name) : c ≠ 0x5c ∧ (c = 0x2f → c ∈ name) := by
  induction name with
  | nil => cases hc
  | cons b rest ih =>
    rcases mem_append.mp hc with hc | hc
    · cases hb : replacement b with
      | some p =>
        rw [escapeChar, hb] at hc
        obtain ⟨hback, hslash⟩ := forall_replacement (P := fun _ p => ∀ c ∈ [0xef, p.1, p.2], c ≠ 0x5c ∧ c ≠ 0x2f)
          (by decide +kernel) hb c hc
        exact ⟨hback, fun heq => absurd heq hslash⟩
      | none =>
        have hout : escapeChar false b rest ⊆ [b, 0xef, 0xbc, 0x8e, 0xbf, 0x81] := by
          rw [escapeChar, hb]
          simp only [Bool.false_eq_true, if_false]
          split_ifs <;> simp
        rcases mem_cons.mp (hout hc) with rfl | hout
        · exact ⟨fun heq => absurd (heq ▸ hb) (by decide), fun _ => mem_cons_self⟩
        · have hbytes : ∀ d ∈ [0xef, 0xbc, 0x8e, 0xbf, 0x81], d ≠ (0x5c : UInt8) ∧ d ≠ 0x2f := by decide
          exact ⟨(hbytes c hout).1, fun heq => absurd heq (hbytes c hout).2⟩
    · exact (ih hc).imp_right fun h heq => mem_cons_of_mem b (h heq)

theorem mem_escape (hc : c ∈ escape name false) : c ≠ 0x5c ∧ (c = 0x2f → c ∈ name) := by
  unfold escape at hc
  split at hc
  next hdots =>
    have hdot := hdots.2 c hc
    exact ⟨by rw [hdot]; decide, fun _ => hc⟩
  rcases mem_append.mp hc with hc | hc
  · have hmark : ∀ d ∈ [0xef, 0xbc, 0x81], d ≠ (0x5c : UInt8) ∧ d ≠ 0x2f := by decide
    split at hc
    · exact ⟨(hmark c hc).1, fun heq => absurd heq (hmark c hc).2⟩
    · cases hc
  · exact mem_escapeLoop hc

theorem escape_harmless (hbytes : ∀ c ∈ name, c ≠ 0 ∧ c ≠ 0x2f) (hdot : name ≠ [0x2e])
    (hdots : name ≠ [0x2e, 0x2e]) : escape name false ≠ [0x2e] ∧ escape name false ≠ [0x2e, 0x2e] ∧
      0x2f ∉ escape name false ∧ 0x5c ∉ escape name false := by
  have hback : unescape (escape name false) = name.flatMap decoded := unescape_escape hbytes
  refine ⟨fun heq => ?_, fun heq => ?_, fun hin => ?_, fun hin => ?_⟩
  · rw [heq] at hback
    exact hdot (flatMap_decoded_inj hback.symm)
  · rw [heq] at hback
    exact hdots (flatMap_decoded_inj hback.symm)
  · exact (hbytes _ ((mem_escape hin).2 rfl)).2 rfl
  · exact (mem_escape hin).1 rfl

theorem normalise_harmless {vpath name : Name} (hnul : 0 ∉ vpath) (hname : name ∈ normalise vpath) :
    escape name false ≠ [0x2e] ∧ escape name false ≠ [0x2e, 0x2e] ∧ 0x2f ∉ escape name false ∧
      0x5c ∉ escape name false := by
  rcases mem_foldl_normaliseStep hname with hin | ⟨hin, hdot, hdots⟩
  · cases hin
  rw [← (fragments_spec vpath).2] at hin
  have ⟨f, hf, hfst⟩ := mem_map.mp hin
  refine escape_harmless (fun c hc => ?_) hdot hdots
  have ⟨hslash, hmem⟩ := mem_fragments hf (hfst ▸ hc)
  exact ⟨fun hzero => hnul (hzero ▸ hmem), hslash⟩

theorem intercalate_concat_nil {l : List Name} (h : l ≠ []) :
    [0x2f].intercalate (l ++ [[]]) = [0x2f].intercalate l ++ [0x2f] := by
  induction l with
  | nil => exact absurd rfl h
  | cons a l ih =>
    cases l with
    | nil => simp
    | cons =>
      rw [cons_append, cons_append, intercalate_cons_cons, intercalate_cons_cons,
        ← cons_append, ih (cons_ne_nil _ _), append_assoc, append_assoc, append_assoc]

theorem append_intercalate_iff (host : Name) (names : List Name) (slash : Bool) :
    host ++ [0x2f].intercalate ((names ++ if slash then [[]] else []).map fun sv => escape sv false) =
      below host names slash ↔ names = [] ∨ host.getLast? = some 0x2f := by
  unfold below
  by_cases hnil : names = []
  · subst hnil
    have hempty : escape [] false = [] := rfl
    cases slash <;> simp [hempty]
  have hmerge : [0x2f].intercalate ((names ++ if slash then [[]] else []).map fun sv => escape sv false) =
      [0x2f].intercalate (names.map fun sv => escape sv false) ++ if slash then [0x2f] else [] := by
    cases slash with
    | false => simp
    | true =>
      rw [if_pos rfl, if_pos rfl, map_append]
      exact intercalate_concat_nil (by simpa using hnil)
  rw [hmerge, if_neg hnil]
  by_cases hlast : host.getLast? = some 0x2f
  · simp [hnil, hlast]
  simp only [hnil, hlast, if_false, or_self, iff_false, append_assoc, append_cancel_left_eq]
  intro heq
  have hlen := congrArg length heq
  simp only [length_append, length_singleton] at hlen
  omega

/-- When a path is resolved as its mount says: if the host path ends in a slash, as that of a directory does, or if the
path is that of the mount itself. -/
theorem get_confined_iff (calls : List Call) (nowhere vpath : Name)
    (hcalls : ∀ vpath path isDir, .mount vpath path isDir ∈ calls → Directory.hostPath path isDir ≠ [0x2f])
    (habs : vpath.head? = some 0x2f) (hnul : 0 ∉ vpath) :
    Confined (mounted calls) vpath ((tree calls).get nowhere vpath) ↔
      ∀ anc, deepest (mounted calls) (normalise vpath) = some anc →
        (normalise vpath).reverse.drop anc.length = [] ∨ (mounted calls anc).getLast? = some 0x2f := by
  rw [get_tree hcalls habs, Confined]
  cases hdeep : deepest (mounted calls) (normalise vpath) with
  | none => simp
  | some anc =>
    have hharmless : ∀ name ∈ ((normalise vpath).reverse.drop anc.length).map fun name => escape name false,
        name ≠ [0x2e] ∧ name ≠ [0x2e, 0x2e] ∧ 0x2f ∉ name ∧ 0x5c ∉ name := by
      intro name hname
      have ⟨sv, hsv, heq⟩ := mem_map.mp hname
      rw [← heq]
      exact normalise_harmless hnul (mem_reverse.mp (mem_of_mem_drop hsv))
    have hiff := append_intercalate_iff (mounted calls anc) ((normalise vpath).reverse.drop anc.length)
      (vpath.getLast? = some 0x2f)
    simp only [decide_eq_true_eq] at hiff
    simp only [hiff, Option.some.injEq, forall_eq']
    exact and_iff_left hharmless

/-- A file below a directory, and the way around through it. -/
theorem get_confined_file :
    Confined (mounted [.mount [0x2f, 0x64] [0x2f, 0x68] true, .mount [0x2f, 0x64, 0x2f, 0x66] [0x2f, 0x67] false])
      [0x2f, 0x64, 0x2f, 0x66, 0x2f, 0x2e, 0x2e, 0x2f, 0x78]
      ((tree [.mount [0x2f, 0x64] [0x2f, 0x68] true, .mount [0x2f, 0x64, 0x2f, 0x66] [0x2f, 0x67] false]).get []
        [0x2f, 0x64, 0x2f, 0x66, 0x2f, 0x2e, 0x2e, 0x2f, 0x78]) :=
  (get_confined_iff _ [] _ (by
    intro vpath path isDir hin
    rcases mem_cons.mp hin with heq | hin
    · cases heq
      decide
    · cases mem_singleton.mp hin
      decide) (by decide) (by decide)).mpr (by decide +kernel)

/-- `/d/f/x` below the file `/h` is the file `/hx`, which is not below `/h`. -/
theorem get_below_file : let calls : List Call := [.mount [0x2f, 0x64, 0x2f, 0x66] [0x2f, 0x68] false]
    let out := (tree calls).get [] [0x2f, 0x64, 0x2f, 0x66, 0x2f, 0x78]
    out = [0x2f, 0x68, 0x78] ∧ ¬Confined (mounted calls) [0x2f, 0x64, 0x2f, 0x66, 0x2f, 0x78] out := by
  decide +kernel

end Armsx3.Vfs
