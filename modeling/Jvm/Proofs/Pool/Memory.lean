/-
# Jvm.Proofs.Pool.Memory — resolving with a memory is resolving without one

A memory is faithful (`Faithful`) if each resolved slot holds what the slot stands for on every
path that avoids the resolved slots. The slots under way are never resolved ones, so a resolved
slot may be answered from memory wherever the walk came from: the answer is the one that
following its references again would give, and none of them can lead back to the walk.

Whatever an action on a faithful memory answers is what its cache-free reading answers on the
path of the slots under way (`Realizes`), and it leaves the same slots under way. The same holds
of a sequence of such actions (`Realizes.bind`) and of marking a slot meanwhile
(`realizes_marking`), so of each kind of entry in turn.

`answers_as_dereferenced`: each question put to a pool, after any others, is answered as by
`dereference`, leaves no slot under way, and is answered the same again at any later time.
-/
import Jvm.Proofs.Pool.Dereference

namespace Jvm.Pool

set_option autoImplicit false

namespace Memo

variable {memo : Memo} {slot other : Nat} {progress : Progress}

theorem progress?_cons (key : Nat) (progress : Progress) (rest : Memo) (slot : Nat) :
    progress? ((key, progress) :: rest) slot =
      if slot = key then some progress else rest.progress? slot := by
  by_cases same : slot = key
  · simp [progress?, same]
  · have apart : (slot == key) = false := beq_eq_false_iff_ne.mpr same
    simp [progress?, List.lookup_cons, apart, same]

@[simp] theorem progress?_forget (memo : Memo) (slot other : Nat) :
    (memo.forget slot).progress? other = if other = slot then none else memo.progress? other := by
  induction memo with
  | nil => simp [forget, progress?]
  | cons first rest ih =>
      obtain ⟨key, progress⟩ := first
      rw [progress?_cons]
      by_cases dropped : key = slot
      · have shorter : forget ((key, progress) :: rest) slot = forget rest slot := by
          simp [forget, dropped]
        rw [shorter, ih, dropped]
        by_cases same : other = slot <;> simp [same]
      · have kept : forget ((key, progress) :: rest) slot = (key, progress) :: forget rest slot := by
          simp [forget, dropped]
        rw [kept, progress?_cons, ih]
        by_cases same : other = key <;> simp [same, dropped]

@[simp] theorem progress?_note (memo : Memo) (slot other : Nat) (progress : Progress) :
    (memo.note slot progress).progress? other =
      if other = slot then some progress else memo.progress? other := by
  rw [note, progress?_cons, progress?_forget]
  by_cases same : other = slot <;> simp [same]

/-- No slot of the path is resolved. -/
def Avoids (memo : Memo) (path : List Nat) : Prop :=
  ∀ slot ∈ path, ∀ found, memo.progress? slot ≠ some (.resolved found)

/-- The path consists of the slots under way. -/
def Along (memo : Memo) (path : List Nat) : Prop :=
  ∀ slot, slot ∈ path ↔ memo.progress? slot = some .resolving

/-- A later memory has the same slots under way and knows all that was known. -/
structure Extends (before after : Memo) : Prop where
  underWay : ∀ slot, after.progress? slot = some .resolving ↔
    before.progress? slot = some .resolving
  resolved : ∀ slot found, before.progress? slot = some (.resolved found) →
    after.progress? slot = some (.resolved found)

theorem Extends.refl (memo : Memo) : Extends memo memo := ⟨fun _ => Iff.rfl, fun _ _ => id⟩

theorem Extends.trans {first second third : Memo} (before : Extends first second)
    (after : Extends second third) : Extends first third :=
  ⟨fun slot => (after.underWay slot).trans (before.underWay slot),
    fun slot found known => after.resolved slot found (before.resolved slot found known)⟩

theorem Along.avoids {path : List Nat} (along : memo.Along path) : memo.Avoids path := by
  intro slot member found known
  rw [(along slot).mp member] at known
  cases known

theorem Extends.along {before after : Memo} (extends_ : Extends before after) {path : List Nat}
    (along : before.Along path) : after.Along path :=
  fun slot => (along slot).trans (extends_.underWay slot).symm

theorem Extends.avoids {before after : Memo} (extends_ : Extends before after) {path : List Nat}
    (avoids : after.Avoids path) : before.Avoids path :=
  fun slot member found known => avoids slot member found (extends_.resolved slot found known)

/-- Once a marked slot is settled, the memory extends the one from before the mark. -/
theorem Extends.settle {middle after : Memo} (extended : (memo.note slot .resolving).Extends middle)
    (idle : memo.progress? slot ≠ some .resolving)
    (fresh : ∀ found, memo.progress? slot ≠ some (.resolved found))
    (elsewhere : ∀ other, other ≠ slot → after.progress? other = middle.progress? other)
    (settled : after.progress? slot ≠ some .resolving) : memo.Extends after where
  underWay other := by
    by_cases same : other = slot
    · simp [same, idle, settled]
    · simpa [same, elsewhere other same] using extended.underWay other
  resolved other found known := by
    by_cases same : other = slot
    · exact absurd (same ▸ known) (fresh found)
    · simpa [same, elsewhere other same] using
        extended.resolved other found (by simpa [same] using known)

theorem Avoids.before_settle {middle after : Memo} (marked : middle.progress? slot = some .resolving)
    (elsewhere : ∀ other, other ≠ slot → after.progress? other = middle.progress? other)
    {path : List Nat} (avoids : after.Avoids path) : middle.Avoids (slot :: path) := by
  intro other member found known
  by_cases same : other = slot
  · rw [same, marked] at known
    cases known
  · have inside : other ∈ path := by simpa [same] using member
    exact avoids other inside found ((elsewhere other same).trans known)

theorem Avoids.tail {path : List Nat} (avoids : memo.Avoids (slot :: path)) : memo.Avoids path :=
  fun other member => avoids other (List.mem_cons_of_mem _ member)

end Memo

/-- Each resolved slot holds what it stands for, on every path that avoids the resolved slots. -/
def Memo.Faithful (pool : Pool) (memo : Memo) : Prop :=
  ∀ slot found, memo.progress? slot = some (.resolved found) →
    ∀ path, memo.Avoids path → ∀ index : Int, index.toNat = slot → pool.isWithin index = true →
      ∀ wanted : Wanted, wanted.accepts (pool.tagAt slot) = true →
        pool.dereference path index wanted = .ok found

/-- The result is that of a reading without a memory, on the path of the slots under way. What is
found is found on any path that avoids the resolved slots; which fault is met depends on the
path. -/
def Agrees (pool : Pool) {α : Type} (memo : Memo) (reading : List Nat → Except Fault α) :
    EStateM.Result Fault Memo α → Prop
  | .ok found after =>
      memo.Extends after ∧ after.Faithful pool ∧ ∀ path, after.Avoids path →
        reading path = .ok found
  | .error fault after =>
      memo.Extends after ∧ after.Faithful pool ∧ ∀ path, memo.Along path →
        reading path = .error fault

def Realizes (pool : Pool) {α : Type} (action : Resolving α) (reading : List Nat → Except Fault α) :
    Prop :=
  ∀ memo : Memo, memo.Faithful pool → Agrees pool memo reading (action memo)

section

variable {pool : Pool} {α β : Type}

theorem realizes_pure (found : α) : Realizes pool (pure found) fun _ => .ok found :=
  fun memo faithful => ⟨.refl memo, faithful, fun _ _ => rfl⟩

theorem realizes_throw (fault : Fault) :
    Realizes pool (throw fault : Resolving α) fun _ => .error fault :=
  fun memo faithful => ⟨.refl memo, faithful, fun _ _ => rfl⟩

theorem Realizes.bind {action : Resolving α} {reading : List Nat → Except Fault α}
    {next : α → Resolving β} {follow : List Nat → α → Except Fault β}
    (first : Realizes pool action reading)
    (second : ∀ found, Realizes pool (next found) fun path => follow path found) :
    Realizes pool (action >>= next) fun path => reading path >>= follow path := by
  intro memo faithful
  have started := first memo faithful
  simp only [Bind.bind, EStateM.bind]
  cases acted : action memo with
  | error fault middle =>
      rw [acted] at started
      obtain ⟨extended, faithful', read⟩ := started
      refine ⟨extended, faithful', fun path along => ?_⟩
      simp [read path along, Except.bind]
  | ok found middle =>
      rw [acted] at started
      obtain ⟨extended, faithful', read⟩ := started
      have finished := second found middle faithful'
      dsimp only
      cases ended : next found middle with
      | ok result after =>
          rw [ended] at finished
          obtain ⟨extended', faithful'', read'⟩ := finished
          refine ⟨extended.trans extended', faithful'', fun path avoids => ?_⟩
          simp [read path (extended'.avoids avoids), Except.bind, read' path avoids]
      | error fault after =>
          rw [ended] at finished
          obtain ⟨extended', faithful'', read'⟩ := finished
          refine ⟨extended.trans extended', faithful'', fun path along => ?_⟩
          have later := extended.along along
          simp [read path later.avoids, Except.bind, read' path later]

/-- The reading of an entry in a slot, on the path to that slot. -/
def expanding (pool : Pool) (index : Int) (entry : Entry) (path : List Nat) :
    Except Fault Resolved :=
  entry.expand (fun target tag => pool.dereference path target (.tagged tag)) index

theorem Memo.Faithful.resolving {memo : Memo} (faithful : memo.Faithful pool) {slot : Nat}
    (fresh : ∀ found, memo.progress? slot ≠ some (.resolved found)) :
    (memo.note slot .resolving).Faithful pool := by
  intro other found known path avoids
  have apart : other ≠ slot := by
    rintro rfl
    simp at known
  refine faithful other found (by simpa [apart] using known) path fun member inside held kept => ?_
  by_cases same : member = slot
  · exact fresh held (same ▸ kept)
  · exact avoids member inside held (by simpa [same] using kept)

theorem dereference_of_reach {index : Int} {entry : Entry} {underWay : Nat → Bool}
    (reached : pool.reach underWay index = .ok entry) {wanted : Wanted}
    (accepted : wanted.accepts entry.tag = true) {path : List Nat} (outside : index.toNat ∉ path) :
    pool.dereference path index wanted = pool.expanding index entry (index.toNat :: path) := by
  have visited : pool.visit path index = .ok entry := by
    rw [visit, ← reached]
    apply reach_congr
    rw [(reach_eq_ok reached).2.2]
    simpa using outside
  rw [dereference_of_ok wanted visited, if_pos accepted]
  rfl

/-- A memory in which a marked slot is given up is faithful as before. -/
theorem Memo.Faithful.forget {memo : Memo} (faithful : memo.Faithful pool) {slot : Nat}
    (marked : memo.progress? slot = some .resolving) : (memo.forget slot).Faithful pool := by
  have elsewhere : ∀ other, other ≠ slot → (memo.forget slot).progress? other = memo.progress? other :=
    fun other apart => by simp [apart]
  intro other held known path avoids
  have apart : other ≠ slot := by
    rintro rfl
    simp at known
  exact faithful other held (by simpa [apart] using known) path
    (avoids.before_settle marked elsewhere).tail

/-- A memory in which a marked slot gets what it stands for is faithful as before. -/
theorem Memo.Faithful.note {memo : Memo} (faithful : memo.Faithful pool) {index : Int}
    {entry : Entry} {found : Resolved} (within : pool.isWithin index = true)
    (here : pool.entryAt index.toNat = some entry)
    (marked : memo.progress? index.toNat = some .resolving)
    (foundOn : ∀ path, (memo.note index.toNat (.resolved found)).Avoids path →
      ∀ wanted : Wanted, wanted.accepts entry.tag = true →
        pool.dereference path index wanted = .ok found) :
    (memo.note index.toNat (.resolved found)).Faithful pool := by
  have elsewhere : ∀ slot, slot ≠ index.toNat →
      (memo.note index.toNat (.resolved found)).progress? slot = memo.progress? slot :=
    fun slot apart => by simp [apart]
  intro slot held known path avoids index' numbered within' wanted accepted
  by_cases same : slot = index.toNat
  · have equal : index' = index := by
      simp only [isWithin, Bool.and_eq_true, decide_eq_true_eq] at within within'
      omega
    have answer : found = held := by simpa [same] using known
    rw [equal, ← answer]
    refine foundOn path avoids wanted ?_
    simpa [tagAt, same, here] using accepted
  · exact faithful slot held (by simpa [same] using known) path
      (avoids.before_settle marked elsewhere).tail index' numbered within' wanted accepted

/-- A slot that is neither resolved nor under way may be marked while its entry is resolved. -/
theorem agrees_marking {index : Int} {entry : Entry} {resolve : Resolving Resolved}
    (inner : Realizes pool resolve (pool.expanding index entry)) {wanted : Wanted} {memo : Memo}
    (faithful : memo.Faithful pool) (reached : pool.reach memo.isUnderWay index = .ok entry)
    (accepted : wanted.accepts entry.tag = true)
    (fresh : ∀ found, memo.progress? index.toNat ≠ some (.resolved found)) :
    Agrees pool memo (fun path => pool.dereference path index wanted)
      (Resolving.marking index.toNat resolve memo) := by
  obtain ⟨within, here, free⟩ := reach_eq_ok reached
  have idle : memo.progress? index.toNat ≠ some .resolving := by simpa [Memo.isUnderWay] using free
  have started := inner _ (faithful.resolving fresh)
  unfold Resolving.marking
  cases resolved : resolve (memo.note index.toNat .resolving) with
  | ok found middle =>
      rw [resolved] at started
      obtain ⟨extended, faithful', read⟩ := started
      have marked := (extended.underWay index.toNat).mpr (by simp)
      have elsewhere : ∀ slot, slot ≠ index.toNat →
          (middle.note index.toNat (.resolved found)).progress? slot = middle.progress? slot :=
        fun slot apart => by simp [apart]
      -- the slot is new to a path that avoids it, so the path may be continued through it
      have foundOn : ∀ path, (middle.note index.toNat (.resolved found)).Avoids path →
          ∀ wanted : Wanted, wanted.accepts entry.tag = true →
            pool.dereference path index wanted = .ok found := by
        intro path avoids wanted accepted
        have outside : index.toNat ∉ path := fun inside => avoids _ inside found (by simp)
        rw [dereference_of_reach reached accepted outside]
        exact read _ (avoids.before_settle marked elsewhere)
      exact ⟨extended.settle idle fresh elsewhere (by simp),
        faithful'.note within here marked foundOn, fun path avoids =>
          foundOn path avoids wanted accepted⟩
  | error fault middle =>
      rw [resolved] at started
      obtain ⟨extended, faithful', read⟩ := started
      have marked := (extended.underWay index.toNat).mpr (by simp)
      refine ⟨extended.settle idle fresh (fun slot apart => by simp [apart]) (by simp),
        faithful'.forget marked, fun path along => ?_⟩
      have outside : index.toNat ∉ path := fun inside => idle ((along _).mp inside)
      refine (dereference_of_reach reached accepted outside).trans (read _ fun slot => ?_)
      by_cases same : slot = index.toNat
      · simp [same]
      · simpa [same] using along slot

/-- Resolving with a memory answers as following the references does, if resolving the entry
does. -/
theorem realizes_remembering {index : Int} {wanted : Wanted} {resolve : Entry → Resolving Resolved}
    (inner : ∀ entry, wanted.accepts entry.tag = true →
      Realizes pool (resolve entry) (pool.expanding index entry)) :
    Realizes pool (pool.remembering index wanted resolve)
      fun path => pool.dereference path index wanted := by
  intro memo faithful
  have visits : ∀ path, memo.Along path →
      pool.visit path index = pool.reach memo.isUnderWay index := by
    intro path along
    apply reach_congr
    simp [Memo.isUnderWay, along index.toNat]
  have recalls : (EStateM.get : Resolving Memo) memo = .ok memo memo := rfl
  simp only [remembering, bind, EStateM.bind, get, getThe, MonadStateOf.get, recalls]
  cases reached : pool.reach memo.isUnderWay index with
  | error fault =>
      refine ⟨.refl memo, faithful, fun path along => ?_⟩
      exact dereference_of_error wanted ((visits path along).trans reached)
  | ok entry =>
      obtain ⟨within, here, free⟩ := reach_eq_ok reached
      by_cases accepted : wanted.accepts entry.tag = true
      · have unresolved (fresh : ∀ found, memo.progress? index.toNat ≠ some (.resolved found)) :=
          agrees_marking (inner entry accepted) faithful reached accepted fresh
        cases noted : memo.progress? index.toNat with
        | none => simpa [accepted, noted] using unresolved (by simp [noted])
        | some progress =>
            cases progress with
            | resolving => simpa [accepted, noted] using unresolved (by simp [noted])
            | resolved found =>
                simp only [accepted]
                refine ⟨.refl memo, faithful, fun path avoids => ?_⟩
                refine faithful _ found noted path avoids index rfl within wanted ?_
                simpa [tagAt, here] using accepted
      · simp only [accepted]
        refine ⟨.refl memo, faithful, fun path along => ?_⟩
        refine (dereference_of_ok wanted ((visits path along).trans reached)).trans ?_
        simp [accepted]

end

/-! ## Each kind of entry in turn -/

section

variable {pool : Pool}

theorem realizes_utf8Memo (index : Int) :
    Realizes pool (pool.utf8Memo index) fun path => pool.dereference path index (.tagged .utf8) := by
  refine realizes_remembering fun entry accepted => ?_
  cases entry with
  | utf8 text => exact realizes_pure _
  | member kind parts => cases kind <;> cases accepted
  | _ => cases accepted

theorem realizes_shallow {index : Int} {entry : Entry} (lower : entry.tag.isMember = false) :
    Realizes pool (pool.shallow index entry) (pool.expanding index entry) := by
  cases entry with
  | classRef name => exact (realizes_utf8Memo name).bind fun _ => realizes_pure _
  | string text => exact (realizes_utf8Memo text).bind fun _ => realizes_pure _
  | nameAndType parts =>
      exact (realizes_utf8Memo _).bind fun _ => (realizes_utf8Memo _).bind fun _ => realizes_pure _
  | member kind parts => cases kind <;> cases lower
  | utf8 | integer | float | long | double => exact realizes_pure _
  | methodHandle | methodType | dynamic | invokeDynamic => exact realizes_throw _

theorem realizes_shallowMemo (index : Int) {tag : Tag} (lower : tag.isMember = false) :
    Realizes pool (pool.shallowMemo index tag)
      fun path => pool.dereference path index (.tagged tag) := by
  refine realizes_remembering fun entry accepted => realizes_shallow ?_
  rwa [← eq_of_beq accepted]

theorem realizes_deep (index : Int) (entry : Entry) :
    Realizes pool (pool.deep index entry) (pool.expanding index entry) := by
  cases entry with
  | member kind parts =>
      exact (realizes_shallowMemo _ rfl).bind fun _ =>
        (realizes_shallowMemo _ rfl).bind fun _ => realizes_pure _
  | _ => exact realizes_shallow rfl

theorem realizes_resolveMemo (index : Int) (wanted : Wanted) :
    Realizes pool (pool.resolveMemo index wanted)
      fun path => pool.dereference path index wanted :=
  realizes_remembering fun entry _ => realizes_deep index entry

end

/-! ## Any sequence of questions -/

/-- A question that can be put to a pool. -/
inductive Query where
  | entry (index : Int) (wanted : Wanted)
  | text (index : Int)
  | classRef (index : Int)
  | nameAndType (index : Int)
  | field (index : Int)
  | method (index : Int)
  | interfaceMethod (index : Int)
  | loadable (index : Int) (wide : Bool)

inductive Answer where
  | entry (found : Resolved)
  | text (content : Option String)

def Answer.Whole (pool : Pool) : Answer → Prop
  | .entry found => found.Whole pool
  | .text content => ∃ text slot, content = some text ∧ pool.entryAt slot = some (.utf8 text)

namespace Query

/-- Ask with the memory that earlier questions left. -/
def ask (pool : Pool) : Query → Resolving Answer
  | .entry index wanted => .entry <$> pool.resolveMemo index wanted
  | .text index => .text <$> pool.resolveText index
  | .classRef index => .entry <$> pool.resolveClass index
  | .nameAndType index => .entry <$> pool.resolveNameAndType index
  | .field index => .entry <$> pool.resolveField index
  | .method index => .entry <$> pool.resolveMethod index
  | .interfaceMethod index => .entry <$> pool.resolveInterfaceMethod index
  | .loadable index wide => .entry <$> pool.resolveLoadable index wide

/-- The slot of the question, with the kind of entry that it wants there. A constant that cannot
be loaded is refused at once. -/
def wanted (pool : Pool) : Query → Except Fault (Int × Wanted)
  | .entry index wanted => return (index, wanted)
  | .text index => return (index, .tagged .utf8)
  | .classRef index => return (index, .tagged .classRef)
  | .nameAndType index => return (index, .tagged .nameAndType)
  | .field index => return (index, .tagged .field)
  | .method index =>
      if pool.isWithin index ∧ pool.tagAt index.toNat = .interfaceMethod then
        return (index, .tagged .interfaceMethod)
      else return (index, .tagged .method)
  | .interfaceMethod index => return (index, .tagged .interfaceMethod)
  | .loadable index wide =>
      match pool.visit [] index with
      | .error fault => throw fault
      | .ok constant =>
          if (if wide then constant.tag.isWide else constant.tag.isLoadable) then
            return (index, .tagged constant.tag)
          else throw (refuseLoad index.toNat constant.tag wide)

/-- The part of the entry that the question is about. -/
def view : Query → Resolved → Answer
  | .text _, found => .text found.text
  | _, found => .entry found

/-- The answer when the slots of the path are under way. -/
def reading (pool : Pool) (query : Query) (path : List Nat) : Except Fault Answer := do
  let (index, wanted) ← query.wanted pool
  return query.view (← pool.dereference path index wanted)

/-- The answer that the pool alone gives. -/
def reference (pool : Pool) (query : Query) : Except Fault Answer := query.reading pool []

end Query

/-- The answer to a question, and the memory after it. -/
def answering (pool : Pool) (query : Query) (memo : Memo) : Except Fault Answer × Memo :=
  match query.ask pool memo with
  | .ok answer memo => (.ok answer, memo)
  | .error fault memo => (.error fault, memo)

/-- The memory that a sequence of questions leaves, whether they were answered or failed. -/
def memoAfter (pool : Pool) (queries : List Query) : Memo :=
  queries.foldl (fun memo query => (pool.answering query memo).2) []

/-- The answer to a question that is put after others. -/
def answerAfter (pool : Pool) (earlier : List Query) (query : Query) : Except Fault Answer :=
  (pool.answering query (pool.memoAfter earlier)).1

section

variable {pool : Pool}

theorem Query.realizes_view {query : Query} {index : Int} {wanted : Wanted}
    (wants : query.wanted pool = .ok (index, wanted)) :
    Realizes pool (query.view <$> pool.resolveMemo index wanted) (query.reading pool) := by
  have reads : query.reading pool = fun path =>
      pool.dereference path index wanted >>= fun found => pure (query.view found) := by
    funext path
    rw [reading, wants]
    rfl
  rw [reads, ← bind_pure_comp]
  exact (realizes_resolveMemo index wanted).bind fun found => realizes_pure _

theorem Query.realizes_refusal {query : Query} {fault : Fault}
    (refused : query.wanted pool = .error fault) :
    Realizes pool (Answer.entry <$> (throw fault : Resolving Resolved)) (query.reading pool) := by
  have reads : query.reading pool = fun _ => .error fault := by
    funext path
    rw [reading, refused]
    rfl
  rw [reads]
  exact realizes_throw fault

theorem Query.realizes_ask (query : Query) :
    Realizes pool (query.ask pool) (query.reading pool) := by
  cases query with
  | text index =>
      have viewed : (Query.text index).ask pool =
          (Query.text index).view <$> pool.resolveMemo index (.tagged .utf8) := by
        simp only [ask, resolveText, map_bind, map_pure]
        rfl
      rw [viewed]
      exact realizes_view rfl
  | entry | classRef | nameAndType | field | interfaceMethod => exact realizes_view rfl
  | method index =>
      by_cases asInterface : pool.isWithin index ∧ pool.tagAt index.toNat = .interfaceMethod
      · rw [ask, resolveMethod, if_pos asInterface]
        refine realizes_view ?_
        exact if_pos asInterface
      · rw [ask, resolveMethod, if_neg asInterface]
        refine realizes_view ?_
        exact if_neg asInterface
  | loadable index wide =>
      rw [ask, resolveLoadable]
      cases visited : pool.visit [] index with
      | error fault => exact realizes_refusal (by simp [wanted, visited]; rfl)
      | ok entry =>
          by_cases fits : (if wide then entry.tag.isWide else entry.tag.isLoadable) = true
          · simp only [if_pos fits]
            refine realizes_view ?_
            simp [wanted, visited, fits]
            rfl
          · simp only [if_neg fits]
            exact realizes_refusal (by simp [wanted, visited, fits]; rfl)

/-- Between questions no slot is under way. -/
structure Memo.Settled (pool : Pool) (memo : Memo) : Prop where
  faithful : memo.Faithful pool
  idle : memo.Along []

theorem settled_nil : Memo.Settled pool [] :=
  ⟨fun _ _ known => by simp [Memo.progress?] at known, fun _ => by simp [Memo.progress?]⟩

theorem Memo.Settled.answering {memo : Memo} (settled : memo.Settled pool) (query : Query) :
    (pool.answering query memo).1 = query.reference pool ∧
      (pool.answering query memo).2.Settled pool := by
  have agrees := query.realizes_ask memo settled.faithful
  unfold Pool.answering
  cases asked : query.ask pool memo with
  | ok answer after =>
      rw [asked] at agrees
      obtain ⟨extended, faithful, read⟩ := agrees
      have idle := extended.along settled.idle
      exact ⟨(read [] idle.avoids).symm, faithful, idle⟩
  | error fault after =>
      rw [asked] at agrees
      obtain ⟨extended, faithful, read⟩ := agrees
      exact ⟨(read [] settled.idle).symm, faithful, extended.along settled.idle⟩

theorem settled_memoAfter (queries : List Query) : (pool.memoAfter queries).Settled pool := by
  suffices settles : ∀ memo : Memo, memo.Settled pool →
      (queries.foldl (fun memo query => (pool.answering query memo).2) memo).Settled pool from
    settles [] settled_nil
  induction queries with
  | nil => exact fun _ settled => settled
  | cons query rest ih => exact fun memo settled => ih _ (settled.answering query).2

theorem answerAfter_eq_reference (earlier : List Query) (query : Query) :
    pool.answerAfter earlier query = query.reference pool :=
  ((settled_memoAfter earlier).answering query).1

theorem whole_of_reference {query : Query} {answer : Answer}
    (answered : query.reference pool = .ok answer) : answer.Whole pool := by
  obtain ⟨⟨index, wanted⟩, wants, rest⟩ := of_bind_eq_ok answered
  obtain ⟨found, dereferenced, viewed⟩ := of_bind_eq_ok rest
  obtain ⟨-, accepts, whole⟩ := whole_of_dereference dereferenced
  cases viewed
  cases query with
  | text index =>
      cases wants
      exact whole.text_of_utf8 (eq_of_beq accepts).symm
  | _ => exact whole

end

/-- Whatever was asked before, a question is answered as the pool alone answers it; the answer
holds texts of the pool or a number, and no slot numbers; no slot is under way afterwards; and
the same question has the same answer at any later time. -/
theorem answers_as_dereferenced (pool : Pool) (earlier : List Query) (query : Query) :
    pool.answerAfter earlier query = query.reference pool ∧
      (∀ answer, pool.answerAfter earlier query = .ok answer → answer.Whole pool) ∧
      (∀ slot, (pool.memoAfter (earlier ++ [query])).progress? slot ≠ some .resolving) ∧
      ∀ later, pool.answerAfter (earlier ++ query :: later) query =
        pool.answerAfter earlier query := by
  refine ⟨answerAfter_eq_reference earlier query, fun answer answered => ?_, fun slot marked => ?_,
    fun later => ?_⟩
  · rw [answerAfter_eq_reference] at answered
    exact whole_of_reference answered
  · exact List.not_mem_nil (((settled_memoAfter _).idle slot).mpr marked)
  · rw [answerAfter_eq_reference, answerAfter_eq_reference]

/-- A class entry that names itself is circular, whatever was asked before. -/
example (earlier : List Query) :
    let pool : Pool := ⟨#[none, some (.classRef 1)]⟩
    pool.answerAfter earlier (.classRef 1) =
      .error (faultAt (.circularEntry 1 .classRef) 1) := by
  intro pool
  rw [answerAfter_eq_reference]
  exact (answerAfter_eq_reference [] (.classRef 1)).symm

end Jvm.Pool
