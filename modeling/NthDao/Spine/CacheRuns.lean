/-
  The caches of all instances along every run of a log.

  * `SpineWorld.Cached`: every instance holds caches of a content that the file
    has had;
  * `cached_step`: every step keeps that, unless SHA-256 collides;
  * `caches_do_not_show`: what an instance returns and leaves on disk is what it
    returns and leaves without caches.
-/
import NthDao.Spine.Afresh

namespace NthDao

open Py Runs

variable {H : Host} {path : String}

/-! ## Replies -/

/-- What an instance returns to its caller. -/
inductive Reply where
  | opened (r : Except String Unit)
  | answer (r : Except String Answer)
  | appended (r : Except String (List (SpineEvent × Bool)))
  | replaced

variable (H path) in
/-- The reply to an action, and the files that it leaves. -/
def SpineWorld.reply (w : SpineWorld H) : SpineAct H → Option (Reply × Disk)
  | .openLog identity stat =>
    let r := loadHead H identity stat w.disk
    some (.opened r.result, r.disk)
  | .query i q stat => do
    let node ← w.nodes[i]?
    let r := q.run H path (asDid H node.key) node.cache stat w.disk
    some (.answer r.result, r.disk)
  | .call i call stat stat' fate n _ => do
    let node ← w.nodes[i]?
    let r := call.run H path node.key node.cache stat stat' fate n w.disk
    some (.appended r.result, r.disk)
  | .replace disk => some (.replaced, disk)

variable (H path) in
/-- The same by recovery, verification from the genesis and recomputation, from
    the files and the keys of the instances. -/
def SpineAct.afresh (d : Disk) (keys : List H.SecretKey) : SpineAct H → Option (Reply × Disk)
  | .openLog identity _ =>
    let r := recoverAfresh H (asDid H identity) d
    some (.opened (r.1.bind fun _ => decodeLines 0 (Lines.split newline r.2.bytes)), r.2)
  | .query i q _ => do
    let key ← keys[i]?
    let r := q.afresh H path (asDid H key) d
    some (.answer r.1, r.2)
  | .call i op _ _ fate n _ => do
    let key ← keys[i]?
    let r := op.afresh H path key fate n d
    some (.appended r.1, r.2)
  | .replace disk => some (.replaced, disk)

theorem SpineWorld.disk_step {w w' : SpineWorld H} {a : SpineAct H}
    (h : w.step H path a = some w') : (w.reply H path a).map Prod.snd = some w'.disk := by
  cases a with
  | openLog identity stat =>
    simp only [step] at h
    split at h <;> cases h <;> rfl
  | query i q stat =>
    simp only [step, Option.bind_eq_bind, Option.bind_eq_some_iff] at h
    obtain ⟨node, hnode, ⟨⟩⟩ := h
    simp only [reply, hnode]
    rfl
  | call i call stat stat' fate n dies =>
    simp only [step, Option.bind_eq_bind, Option.bind_eq_some_iff] at h
    obtain ⟨node, hnode, ⟨⟩⟩ := h
    simp only [reply, hnode]
    rfl
  | replace disk =>
    cases h
    rfl

/-! ## The invariant -/

theorem loadHead_eq (identity : H.SecretKey) (stat : Stat) (d : Disk) :
    (loadHead H identity stat d).disk = (recoverCached H (asDid H identity) {} stat d).disk ∧
      (loadHead H identity stat d).cache =
        (recoverCached H (asDid H identity) {} stat d).cache := by
  cases hr : (recoverCached H (asDid H identity) {} stat d).result <;> simp [loadHead, hr]

/-- The content of the file is known, and all caches are right. -/
structure SpineWorld.Cached (w : SpineWorld H) : Prop where
  main : w.disk.main ∈ w.past
  nodes : ∀ node ∈ w.nodes, CacheOk H w.past node.cache

namespace SpineWorld

variable {w w' : SpineWorld H}

theorem mem_past_after (main : Option Bytes) (disk : Disk) (nodes : List (Node H)) :
    ∀ m ∈ w.past, m ∈ (w.after main disk nodes).past :=
  fun _ hm => List.mem_cons_of_mem _ (List.mem_cons_of_mem _ hm)

theorem cached_after {main : Option Bytes} {disk : Disk} {nodes : List (Node H)}
    (h : ∀ node ∈ nodes, CacheOk H (w.after main disk nodes).past node.cache) :
    (w.after main disk nodes).Cached :=
  ⟨List.mem_cons_self, h⟩

/-- The caches of the instances that do not act. -/
theorem Cached.others (h : w.Cached) (main : Option Bytes) (disk : Disk) (nodes : List (Node H)) :
    ∀ node ∈ w.nodes, CacheOk H (w.after main disk nodes).past node.cache :=
  fun node hnode => (h.nodes node hnode).mono (mem_past_after main disk nodes)

/-- The opening of an instance. -/
theorem step_openLog {identity : H.SecretKey} {stat : Stat}
    (hs : w.step H path (.openLog identity stat) = some w') :
    ∃ nodes, w' = w.after (recoverCached H (asDid H identity) {} stat w.disk).disk.main
        (recoverCached H (asDid H identity) {} stat w.disk).disk nodes ∧
      ∀ node ∈ nodes, node ∈ w.nodes ∨
        node = ⟨identity, (recoverCached H (asDid H identity) {} stat w.disk).cache⟩ := by
  obtain ⟨hdisk, hcache⟩ := loadHead_eq identity stat w.disk
  rw [← hdisk, ← hcache]
  cases hr : (loadHead H identity stat w.disk).result with
  | error e =>
    simp only [SpineWorld.step, hr, Option.some_inj] at hs
    exact ⟨_, hs.symm, fun node hnode => .inl hnode⟩
  | ok u =>
    simp only [SpineWorld.step, hr, Option.some_inj] at hs
    exact ⟨_, hs.symm, fun node hnode => by simpa using hnode⟩

/-- What a step does: the caches of the instance that acts stay right, and it
    replies as without caches; the answer of a query is right unless ids collide. -/
theorem Cached.step (h : w.Cached) {a : SpineAct H} (hs : w.step H path a = some w')
    (hsep : Separate H w'.past) :
    w'.Cached ∧ (NoCollision H w'.past ∨ (∀ i q s, a ≠ .query i q s) →
      w.reply H path a = a.afresh H path w.disk (w.nodes.map Node.key)) := by
  cases a with
  | openLog identity stat =>
    obtain ⟨nodes, rfl, hnodes⟩ := step_openLog hs
    have hm : (recoverAfresh H (asDid H identity) w.disk).2.main ∈ (w.after
        (recoverCached H (asDid H identity) {} stat w.disk).disk.main
        (recoverCached H (asDid H identity) {} stat w.disk).disk nodes).past := by
      rw [← main_recoverCached (asDid H identity) {} stat w.disk]
      exact List.mem_cons_self
    obtain ⟨hres, hdisk, hok⟩ := recoverCached_eq hsep (cacheOk_empty _) hm stat
    refine ⟨cached_after fun x hx => ?_, fun _ => ?_⟩
    · rcases hnodes x hx with hx | rfl
      · exact h.others _ _ _ x hx
      · exact hok
    · simp only [reply, SpineAct.afresh, hdisk, loadHead, hres]
      cases (recoverAfresh H (asDid H identity) w.disk).1 <;> rfl
  | query i q stat =>
    simp only [SpineWorld.step, Option.bind_eq_bind, Option.bind_eq_some_iff] at hs
    obtain ⟨node, hnode, ⟨⟩⟩ := hs
    have hc := h.others (q.run H path (asDid H node.key) node.cache stat w.disk).disk.main
      (q.run H path (asDid H node.key) node.cache stat w.disk).disk
      (w.nodes.set i { node with
        cache := (q.run H path (asDid H node.key) node.cache stat w.disk).cache })
    obtain ⟨hres, hdisk, hok⟩ := Query.run_eq hsep (hc node (List.mem_of_getElem? hnode))
      List.mem_cons_self
    refine ⟨cached_after fun x hx => ?_, fun hn => ?_⟩
    · rcases List.mem_or_eq_of_mem_set hx with hx | rfl
      · exact hc x hx
      · exact hok
    · replace hn := hn.resolve_right fun hq => hq i q stat rfl
      simp only [reply, SpineAct.afresh, List.getElem?_map, hnode, Option.map_some,
        Option.bind_eq_bind, Option.bind_some, hres hn, hdisk]
  | call i call stat stat' fate n dies =>
    simp only [SpineWorld.step, Option.bind_eq_bind, Option.bind_eq_some_iff] at hs
    obtain ⟨node, hnode, ⟨⟩⟩ := hs
    have hc := h.others (call.run H path node.key node.cache stat stat' fate 0 w.disk).disk.main
      (call.run H path node.key node.cache stat stat' fate n w.disk).disk
      (if dies then w.nodes.eraseIdx i else w.nodes.set i { node with
        cache := (call.run H path node.key node.cache stat stat' fate n w.disk).cache })
    obtain ⟨hres, hdisk, hok⟩ := SpineCall.run_eq hsep (hc node (List.mem_of_getElem? hnode))
      (List.mem_cons_of_mem _ List.mem_cons_self) n
    refine ⟨cached_after fun x hx => ?_, fun _ => ?_⟩
    · split_ifs at hx
      · exact hc x (List.mem_of_mem_eraseIdx hx)
      · rcases List.mem_or_eq_of_mem_set hx with hx | rfl
        · exact hc x hx
        · exact hok List.mem_cons_self
    · simp only [reply, SpineAct.afresh, List.getElem?_map, hnode, Option.map_some,
        Option.bind_eq_bind, Option.bind_some, hres, hdisk]
  | replace disk =>
    cases hs
    exact ⟨cached_after (h.others disk.main disk w.nodes), fun _ => rfl⟩

/-- What a step adds to the contents stays known. -/
theorem past_step {a : SpineAct H} (h : w.step H path a = some w') : ∀ m ∈ w.past, m ∈ w'.past := by
  cases a with
  | openLog identity stat =>
    simp only [SpineWorld.step] at h
    split at h <;> cases h <;> exact mem_past_after _ _ _
  | query i q stat =>
    simp only [SpineWorld.step, Option.bind_eq_bind, Option.bind_eq_some_iff] at h
    obtain ⟨node, -, ⟨⟩⟩ := h
    exact mem_past_after _ _ _
  | call i call stat stat' fate n dies =>
    simp only [SpineWorld.step, Option.bind_eq_bind, Option.bind_eq_some_iff] at h
    obtain ⟨node, -, ⟨⟩⟩ := h
    exact mem_past_after _ _ _
  | replace disk =>
    cases h
    exact mem_past_after _ _ _

/-- The caches are right along every run. -/
theorem cached_of_reach {d₀ : Disk} (h : Reach (SpineWorld.step H path) (fun _ _ => True)
    ⟨d₀, [d₀.main], []⟩ w) (hn : NoCollision H w.past) : w.Cached := by
  have hrun : NoCollision H w.past → w.Cached := by
    refine h.invariant (P := fun w => NoCollision H w.past → w.Cached) (fun _ => ?_) ?_
    · exact ⟨List.mem_singleton.2 rfl, by simp⟩
    · intro w a w' ih _ hs hn
      exact ((ih (hn.mono (past_step hs))).step hs hn.separate).1
  exact hrun hn

end SpineWorld

/-- **The caches do not show.**  After any run of a log, whatever its file was to
    begin with, and as long as SHA-256 tells its contents and their events apart:
    every operation of every instance returns what it would return, or raises what
    it would raise, by verifying the current bytes from the genesis and looking
    into its events, and it leaves the same files. -/
theorem caches_do_not_show {d₀ : Disk} {w w' : SpineWorld H} {a : SpineAct H}
    (h : Reach (SpineWorld.step H path) (fun _ _ => True) ⟨d₀, [d₀.main], []⟩ w)
    (hs : w.step H path a = some w') (hn : NoCollision H w'.past) :
    w.reply H path a = a.afresh H path w.disk (w.nodes.map Node.key) ∧
      (w.reply H path a).map Prod.snd = some w'.disk :=
  ⟨((SpineWorld.cached_of_reach h (hn.mono (SpineWorld.past_step hs))).step hs hn.separate).2 (.inl hn), SpineWorld.disk_step hs⟩

/-- An instance reads an empty log, which is replaced by one with a blank line. -/
def replacedLog : List (SpineAct checksumHost) :=
  [.openLog (1 : UInt8) {}, .query 0 .verifiedSnapshot {}, .replace { main := some [newline] }]

/-- The run, with the query. -/
def replacedLogRun : PLift (((run (SpineWorld.step checksumHost "log") ⟨{}, [none], []⟩
    replacedLog).bind fun w =>
      (w.step checksumHost "log" (.query 0 (.findUniqueEvent "note" "id" "x") {})).map fun w' =>
        decide (w.disk.main = some [newline] ∧ NoCollision checksumHost w'.past)) = some true) :=
  ⟨by decide +kernel⟩

/-- A query after that verifies the new bytes. -/
theorem caches_do_not_show_replaced : ∃ w w' : SpineWorld checksumHost,
    w.step checksumHost "log" (.query 0 (.findUniqueEvent "note" "id" "x") {}) = some w' ∧
      w.disk.main = some [newline] ∧ NoCollision checksumHost w'.past ∧
      w.reply checksumHost "log" (.query 0 (.findUniqueEvent "note" "id" "x") {}) =
        SpineAct.afresh checksumHost "log" w.disk (w.nodes.map Node.key)
          (.query 0 (.findUniqueEvent "note" "id" "x") {}) := by
  have hrun : ((run (SpineWorld.step checksumHost "log") ⟨{}, [none], []⟩ replacedLog).bind fun w =>
      (w.step checksumHost "log" (.query 0 (.findUniqueEvent "note" "id" "x") {})).map fun w' =>
        decide (w.disk.main = some [newline] ∧ NoCollision checksumHost w'.past)) = some true :=
    replacedLogRun.down
  obtain ⟨w, hw, h⟩ := Option.bind_eq_some_iff.1 hrun
  obtain ⟨w', hs, h⟩ := Option.map_eq_some_iff.1 h
  obtain ⟨hmain, hn⟩ := of_decide_eq_true h
  exact ⟨w, w', hs, hmain, hn, (caches_do_not_show (reach_of_run (.start) hw fun _ _ _ => trivial)
    hs hn).1⟩

end NthDao
