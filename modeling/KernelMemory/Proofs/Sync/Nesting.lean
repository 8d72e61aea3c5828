import KernelMemory.Proofs.Program.Discipline
import KernelMemory.Proofs.Sync.MaskGuards
import KernelMemory.Sync.Guarded

/-!
# Nested guards

Code of one context that masks interrupts, takes locks and reads and writes the
values behind them, in scopes that lie inside each other.  A scope drops its
guard on every way out, and the code may panic anywhere, so a panic unwinds
through all scopes around it.

`Nest.program` is such code on guarded values, together with notes that it never
reads: which locks are taken through masking guards, and what has been written.
The discipline `nesting` says what holds between any two pieces of it.  Code that
is between scopes `Tidies`: it keeps the discipline and puts everything back but
the values, however it ends.  Each kind of scope tidies if its body does, so by
induction on the code all of it does (`Nest.tidies`).
-/

namespace KernelMemory

open Program

namespace Guarded

variable {κ α β γ : Type}

/-! ## Nests -/

/-- Guarded values with notes of what has been done to them. -/
structure Site (κ α : Type) where
  guarded : Guarded κ α
  /-- The locks that masking guards stand for, from before each lock is taken
  until after its guard has been dropped. -/
  masking : List κ
  /-- What was written, the last first. -/
  written : List (κ × α)

namespace Site

def part : Focus (Site κ α) (Guarded κ α) :=
  fun site => some (site.guarded, fun guarded => { site with guarded })

def setFlag (interrupts : Bool) (site : Site κ α) : Site κ α :=
  { site with guarded := { site.guarded with interrupts } }

/-- A site with the note that a lock is taken through a masking guard. -/
def note (name : κ) (site : Site κ α) : Site κ α := { site with masking := name :: site.masking }

/-- Runs `body` in a scope that has a guard, which is dropped on every way out. -/
def scope
    (enter : Program κ (Guarded κ α) γ) (leave : γ → Program κ (Guarded κ α) Unit)
    (body : Program κ (Site κ α) β) : Program κ (Site κ α) β := do
  let guard ← within part enter
  body.ensuring (within part (leave guard))

variable [DecidableEq κ]

/-- The value behind a lock, with a note of what is written there. -/
def content (name : κ) : Focus (Site κ α) α :=
  fun site => (Guarded.content name site.guarded).map fun (value, rebuild) =>
    (value, fun value =>
      { site with guarded := rebuild value, written := (name, value) :: site.written })

/-- A site without that note. -/
def strike (name : κ) (site : Site κ α) : Site κ α :=
  { site with masking := site.masking.erase name }

/-- Notes that a lock is taken through a masking guard while `body` runs. -/
def noting (name : κ) (body : Program κ (Site κ α) β) : Program κ (Site κ α) β := do
  update (note name)
  body.ensuring (update (strike name))

end Site

/-- Code that gives a `β`, in a place where the locks `held` are held. -/
inductive Nest (κ α : Type) : List κ → Type → Type 1
  | stop {held : List κ} {β : Type} (answer : β) : Nest κ α held β
  | panic {held : List κ} {β : Type} (text : String) : Nest κ α held β
  | read {held : List κ} {β : Type} (name : κ) (inside : name ∈ held)
      (next : α → Nest κ α held β) : Nest κ α held β
  | write {held : List κ} {β : Type} (name : κ) (inside : name ∈ held) (value : α)
      (next : Nest κ α held β) : Nest κ α held β
  /-- A scope with a guard that masks interrupts. -/
  | masked {held : List κ} {β γ : Type} (body : Nest κ α held γ)
      (next : γ → Nest κ α held β) : Nest κ α held β
  /-- A scope that holds a lock through a masking guard. -/
  | lockMasked {held : List κ} {β γ : Type} (name : κ) (fresh : name ∉ held)
      (body : Nest κ α (name :: held) γ) (next : γ → Nest κ α held β) : Nest κ α held β
  /-- A scope that holds a lock through a plain guard. -/
  | withLock {held : List κ} {β γ : Type} (name : κ) (body : Nest κ α (name :: held) γ)
      (next : γ → Nest κ α held β) : Nest κ α held β

namespace Nest

/-- Plain guards are for locks that are not held yet, as masking guards are. -/
def Fresh : {held : List κ} → {β : Type} → Nest κ α held β → Prop
  | _, _, .stop _ | _, _, .panic _ => True
  | _, _, .read _ _ next => ∀ value, (next value).Fresh
  | _, _, .write _ _ _ next => next.Fresh
  | _, _, .masked body next => body.Fresh ∧ ∀ answer, (next answer).Fresh
  | _, _, .lockMasked _ _ body next => body.Fresh ∧ ∀ answer, (next answer).Fresh
  | held, _, .withLock name body next =>
      name ∉ held ∧ body.Fresh ∧ ∀ answer, (next answer).Fresh

variable [DecidableEq κ]

/-- What the code does to a site. -/
def program : {held : List κ} → {β : Type} → Nest κ α held β → Program κ (Site κ α) β
  | _, _, .stop answer => return answer
  | _, _, .panic text => fault (.raised text)
  | _, _, .read name _ next => do
      let value ← within Site.part (within (Guarded.content name) (inspect id))
      (next value).program
  | _, _, .write name _ value next => do
      within (Site.content name) (update fun _ => value)
      next.program
  | _, _, .masked body next => do
      let answer ← Site.scope (Interrupts.createGuard flag) (Interrupts.dropGuard flag) body.program
      (next answer).program
  | _, _, .lockMasked name _ body next => do
      let answer ← Site.noting name (Site.scope (Guarded.lockMasked name) unlock body.program)
      (next answer).program
  | _, _, .withLock name body next => do
      let answer ← Site.scope (lock name) unlock body.program
      (next answer).program

end Nest

/-! ## What holds between two pieces -/

namespace Site

/-- No lock that a masking guard stands for is held with interrupts enabled. -/
def Shielded (held : List κ) (site : Site κ α) : Prop :=
  ∀ name ∈ site.masking, name ∈ held → site.guarded.interrupts = false

theorem Shielded.of_masked
    {held : List κ} {site : Site κ α} (h : site.guarded.interrupts = false) : site.Shielded held :=
  fun _ _ _ => h

variable [DecidableEq κ]

/-- Each value is the last one written, or the one that was there `initially`. -/
def Current (initially : κ → α) (site : Site κ α) : Prop :=
  ∀ name, site.guarded.values name = (site.written.lookup name).getD (initially name)

theorem Current.write
    {initially : κ → α} {site : Site κ α} (h : site.Current initially) (name : κ) (value : α) :
    Current initially
      { site with
        guarded.values := fun other => if other = name then value else site.guarded.values other
        written := (name, value) :: site.written } := by
  intro other
  by_cases heq : other = name
  · subst heq
    simp
  · have hne : (other == name) = false := beq_eq_false_iff_ne.2 heq
    simp only [if_neg heq, List.lookup_cons, hne]
    exact h other

/-- A place between two scopes where the locks `held` are held. -/
structure Ready (initially : κ → α) (held : List κ) (site : Site κ α) : Prop where
  current : site.Current initially
  shielded : site.Shielded held
  masking : ∀ name ∈ site.masking, name ∈ held

end Site

section Keeping

variable [DecidableEq κ] {initially : κ → α} {fresh : Prop} {held : List κ} {site site' : Site κ α}

/-- One context alone, which owns all of the site and the locks `held`.  If the
code is `fresh`, it takes no lock twice. -/
def nesting (initially : κ → α) (fresh : Prop) :
    Discipline κ (Site κ α) (List κ × Site κ α) Unit where
  inv own _ locks site :=
    locks.held = own.1 ∧ site = own.2 ∧ site.Shielded own.1 ∧ site.Current initially
  mayWait _ := False
  mayTake name own := fresh → name ∉ own.1
  mayHold _ _ := True
  mayFree _ _ := True

theorem keeps_step
    {act : Site κ α → Option (γ × Site κ α)} {next : γ → Program κ (Site κ α) β} {answer : γ}
    {post : Result β → List κ × Site κ α → Prop} (hact : act site = some (answer, site'))
    (hshielded : site'.Shielded held) (hcurrent : site'.Current initially)
    (h : Keeps (nesting initially fresh) (held, site') (next answer) post) :
    Keeps (nesting initially fresh) (held, site) (.step act next) post := by
  rintro env locks s ⟨hheld, rfl, -, -⟩
  exact Or.inr ⟨answer, site', (held, site'), hact, ⟨hheld, rfl, hshielded, hcurrent⟩, h⟩

theorem keeps_acquire
    {name : κ} {next : Program κ (Site κ α) β} {post : Result β → List κ × Site κ α → Prop}
    (hfresh : fresh → name ∉ held) (hshielded : site.Shielded (name :: held))
    (h : name ∉ held → Keeps (nesting initially fresh) (name :: held, site) next post) :
    Keeps (nesting initially fresh) (held, site) (.acquire name next) post := by
  refine ⟨hfresh, ?_⟩
  rintro env locks s ⟨rfl, rfl, -, hcurrent⟩ hfree
  exact ⟨(name :: locks.held, s), ⟨rfl, rfl, hshielded, hcurrent⟩, trivial, h hfree⟩

theorem keeps_release
    {name : κ} {next : Result Unit → Program κ (Site κ α) β}
    {post : Result β → List κ × Site κ α → Prop} (hname : name ∉ held)
    (h : Keeps (nesting initially fresh) (held, site) (next (.ok ())) post) :
    Keeps (nesting initially fresh) (name :: held, site) (.release name next) post := by
  refine ⟨trivial, ?_⟩
  rintro env locks s ⟨hheld, rfl, hshielded, hcurrent⟩
  have hrest : (locks.freeing name).held = held := by
    have hfree : Locks.IsFree ⟨locks.kind, held⟩ name := hname
    rw [Locks.freeing, hheld, List.filter_cons_of_neg (by simp)]
    exact Locks.filter_held_eq hfree
  refine ⟨hheld ▸ List.mem_cons_self, (held, s), ⟨hrest, rfl, ?_, hcurrent⟩, h⟩
  intro other hother hmem
  exact hshielded other hother (List.mem_cons_of_mem name hmem)

theorem keeps_createGuard
    {post : Result MaskGuard → List κ × Site κ α → Prop} (hcurrent : site.Current initially)
    (hshielded : site.Shielded held)
    (h : post (.ok ⟨site.guarded.interrupts⟩) (held, site.setFlag false)) :
    Keeps (nesting initially fresh) (held, site)
      (within Site.part (Interrupts.createGuard flag)) post := by
  obtain ⟨⟨interrupts, values⟩, masking, written⟩ := site
  apply keeps_step rfl hshielded hcurrent
  cases interrupts with
  | false => exact h
  | true => exact keeps_step rfl (Site.Shielded.of_masked rfl) hcurrent h

theorem keeps_dropGuard
    {guard : MaskGuard} {post : Result Unit → List κ × Site κ α → Prop}
    (hcurrent : site.Current initially)
    (hshielded : (site.setFlag (guard.wereEnabled || site.guarded.interrupts)).Shielded held)
    (h : post (.ok ()) (held, site.setFlag (guard.wereEnabled || site.guarded.interrupts))) :
    Keeps (nesting initially fresh) (held, site)
      (within Site.part (Interrupts.dropGuard flag guard)) post := by
  obtain ⟨wereEnabled⟩ := guard
  cases wereEnabled with
  | false => exact h
  | true => exact keeps_step rfl hshielded hcurrent h

theorem keeps_lockMasked
    {name : κ} {post : Result (LockGuard κ) → List κ × Site κ α → Prop} (hname : name ∉ held)
    (hcurrent : site.Current initially) (hshielded : site.Shielded held)
    (h : post (.ok ⟨name, some ⟨site.guarded.interrupts⟩⟩) (name :: held, site.setFlag false)) :
    Keeps (nesting initially fresh) (held, site) (within Site.part (lockMasked name)) post := by
  rw [lockMasked, within_bind]
  apply Keeps.bind
  apply keeps_createGuard hcurrent hshielded
  exact keeps_acquire (fun _ => hname) (.of_masked rfl) fun _ => h

/-- The lock is freed while interrupts are still masked. -/
theorem keeps_unlock_masked
    {name : κ} {guard : MaskGuard} {post : Result Unit → List κ × Site κ α → Prop}
    (hname : name ∉ held) (hcurrent : site.Current initially)
    (hshielded : (site.setFlag (guard.wereEnabled || site.guarded.interrupts)).Shielded held)
    (h : post (.ok ()) (held, site.setFlag (guard.wereEnabled || site.guarded.interrupts))) :
    Keeps (nesting initially fresh) (name :: held, site)
      (within Site.part (unlock ⟨name, some guard⟩)) post := by
  rw [unlock, within_ensuring]
  apply Keeps.ensuring
  apply keeps_release hname
  exact keeps_dropGuard hcurrent hshielded h

end Keeping

/-! ## One scope after the other -/

section Tidying

variable [DecidableEq κ] {initially : κ → α} {fresh : Prop} {held : List κ} {site : Site κ α}

/-- How code ends that holds `held` and found `site`: it delivers or panics, and
has put back everything but the values. -/
structure Leaves
    (initially : κ → α) (held : List κ) (site : Site κ α)
    (result : Result β) (own : List κ × Site κ α) : Prop where
  ending : (∃ answer, result = .ok answer) ∨ ∃ text, result = .fault (.raised text)
  held : own.1 = held
  interrupts : own.2.guarded.interrupts = site.guarded.interrupts
  masking : own.2.masking = site.masking
  current : own.2.Current initially

theorem Leaves.ready
    {result : Result β} {own : List κ × Site κ α} (h : Leaves initially held site result own)
    (hready : site.Ready initially held) : own.2.Ready initially held := by
  refine ⟨h.current, ?_, ?_⟩
  · intro name hname hmem
    rw [h.masking] at hname
    rw [h.interrupts]
    exact hready.shielded name hname hmem
  · rw [h.masking]
    exact hready.masking

theorem Leaves.trans
    {result : Result β} {result' : Result γ} {own own' : List κ × Site κ α}
    (h : Leaves initially held site result own) (h' : Leaves initially held own.2 result' own') :
    Leaves initially held site result' own' where
  ending := h'.ending
  held := h'.held
  interrupts := h'.interrupts.trans h.interrupts
  masking := h'.masking.trans h.masking
  current := h'.current

/-- A guard that is dropped after code which ran masked puts back what it found. -/
theorem Leaves.interrupts_restored
    {result : Result β} {own : List κ × Site κ α}
    (h : Leaves initially held (site.setFlag false) result own) :
    (site.guarded.interrupts || own.2.guarded.interrupts) = site.guarded.interrupts := by
  rw [h.interrupts]
  exact Bool.or_false _

theorem Leaves.unwind
    {failure : Failure} {own : List κ × Site κ α}
    (h : Leaves (β := β) initially held site (.error failure) own) :
    Leaves (β := γ) initially held site (.error failure) own := by
  refine ⟨Or.inr ?_, h.held, h.interrupts, h.masking, h.current⟩
  rcases h.ending with ⟨answer, hanswer⟩ | ⟨text, htext⟩
  · cases hanswer
  · cases htext
    exact ⟨text, rfl⟩

/-- Between two scopes that hold `held`, the code keeps the discipline and ends
with everything put back. -/
def Tidies
    (initially : κ → α) (fresh : Prop) (held : List κ) (program : Program κ (Site κ α) β) : Prop :=
  ∀ site : Site κ α, site.Ready initially held →
    Keeps (nesting initially fresh) (held, site) program (Leaves initially held site)

theorem Tidies.bind
    {program : Program κ (Site κ α) β} {next : β → Program κ (Site κ α) γ}
    (h : Tidies initially fresh held program)
    (hnext : ∀ answer, Tidies initially fresh held (next answer)) :
    Tidies initially fresh held (program >>= next) := by
  intro site hready
  apply Keeps.bind
  apply (h site hready).mono
  rintro result ⟨held', site'⟩ hleaves
  obtain rfl : held' = held := hleaves.held
  cases result with
  | error failure => exact hleaves.unwind
  | ok answer =>
      apply (hnext answer site' (hleaves.ready hready)).mono
      intro result own hrest
      exact hleaves.trans hrest

theorem Tidies.masked
    {body : Program κ (Site κ α) β} (h : Tidies initially fresh held body) :
    Tidies initially fresh held
      (Site.scope (Interrupts.createGuard flag) (Interrupts.dropGuard flag) body) := by
  intro site hready
  apply Keeps.bind
  apply keeps_createGuard hready.current hready.shielded
  apply Keeps.ensuring
  apply (h (site.setFlag false) ⟨hready.current, .of_masked rfl, hready.masking⟩).mono
  rintro result ⟨held', site'⟩ hleaves
  obtain rfl : held' = held := hleaves.held
  have hflag : (site.guarded.interrupts || site'.guarded.interrupts) = site.guarded.interrupts :=
    hleaves.interrupts_restored
  have hrestored : Leaves initially held' site result
      (held', site'.setFlag (site.guarded.interrupts || site'.guarded.interrupts)) :=
    ⟨hleaves.ending, rfl, hflag, hleaves.masking, hleaves.current⟩
  exact keeps_dropGuard hleaves.current (hrestored.ready hready).shielded hrestored

theorem Tidies.withLock
    {name : κ} {body : Program κ (Site κ α) β} (hfresh : fresh → name ∉ held)
    (h : Tidies initially fresh (name :: held) body) :
    Tidies initially fresh held (Site.scope (lock name) unlock body) := by
  intro site hready
  have hinside : site.Ready initially (name :: held) := by
    refine ⟨hready.current, ?_, ?_⟩
    · intro other hother _
      exact hready.shielded other hother (hready.masking other hother)
    · intro other hother
      exact List.mem_cons_of_mem name (hready.masking other hother)
  apply Keeps.bind
  apply keeps_acquire hfresh hinside.shielded
  intro hname
  apply keeps_pure
  apply Keeps.ensuring
  apply (h site hinside).mono
  rintro result ⟨held', site'⟩ hleaves
  obtain rfl : held' = name :: held := hleaves.held
  apply keeps_release hname
  exact ⟨hleaves.ending, rfl, hleaves.interrupts, hleaves.masking, hleaves.current⟩

theorem Tidies.lockMasked
    {name : κ} {body : Program κ (Site κ α) β} (hname : name ∉ held)
    (h : Tidies initially fresh (name :: held) body) :
    Tidies initially fresh held
      (Site.noting name (Site.scope (Guarded.lockMasked name) unlock body)) := by
  intro site hready
  -- the note is made before the lock is taken and struck after it is freed
  have hnoted {site' : Site κ α} (hmasking : site'.masking = name :: site.masking)
      (hflag : site'.guarded.interrupts = site.guarded.interrupts) : site'.Shielded held := by
    intro other hother hmem
    rw [hmasking] at hother
    rw [hflag]
    rcases List.mem_cons.1 hother with rfl | hold
    · exact absurd hmem hname
    · exact hready.shielded other hold hmem
  have hinside : ((site.note name).setFlag false).Ready initially (name :: held) := by
    refine ⟨hready.current, .of_masked rfl, ?_⟩
    intro other hother
    rcases List.mem_cons.1 hother with rfl | hold
    · exact List.mem_cons_self
    · exact List.mem_cons_of_mem name (hready.masking other hold)
  have hcurrent : (site.note name).Current initially := hready.current
  have hshielded : (site.note name).Shielded held := hnoted rfl rfl
  refine keeps_step rfl hshielded hcurrent ?_
  apply Keeps.ensuring
  apply Keeps.bind
  apply keeps_lockMasked hname hcurrent hshielded
  apply Keeps.ensuring
  apply (h _ hinside).mono
  rintro result ⟨held', site'⟩ hleaves
  obtain rfl : held' = name :: held := hleaves.held
  have hflag : (site.guarded.interrupts || site'.guarded.interrupts) = site.guarded.interrupts :=
    hleaves.interrupts_restored
  have hmasking : site'.masking.erase name = site.masking := by
    rw [hleaves.masking]
    exact List.erase_cons_head name site.masking
  have hrestored : Leaves initially held site result
      (held, (site'.setFlag (site.guarded.interrupts || site'.guarded.interrupts)).strike name) :=
    ⟨hleaves.ending, rfl, hflag, hmasking, hleaves.current⟩
  apply keeps_unlock_masked hname hleaves.current
  · exact hnoted hleaves.masking hflag
  · exact keeps_step rfl (hrestored.ready hready).shielded hleaves.current hrestored

theorem tidies_stop (answer : β) :
    Tidies initially fresh held (return answer : Program κ (Site κ α) β) := by
  intro site hready
  exact ⟨Or.inl ⟨answer, rfl⟩, rfl, rfl, rfl, hready.current⟩

theorem tidies_panic (text : String) :
    Tidies initially fresh held (fault (.raised text) : Program κ (Site κ α) β) := by
  intro site hready
  exact ⟨Or.inr ⟨text, rfl⟩, rfl, rfl, rfl, hready.current⟩

theorem tidies_read (name : κ) :
    Tidies (α := α) initially fresh held
      (within Site.part (within (Guarded.content name) (inspect id))) := by
  intro site hready
  have hsame : (fun other => if other = name then site.guarded.values name
      else site.guarded.values other) = site.guarded.values := by
    funext other
    split
    · next heq => rw [heq]
    · rfl
  have hact : (some (site.guarded.values name, { site with
      guarded.values := fun other => if other = name then site.guarded.values name
        else site.guarded.values other }) : Option (α × Site κ α)) =
      some (site.guarded.values name, site) := by
    rw [hsame]
  apply keeps_step hact hready.shielded hready.current
  exact ⟨Or.inl ⟨_, rfl⟩, rfl, rfl, rfl, hready.current⟩

theorem tidies_write (name : κ) (value : α) :
    Tidies initially fresh held (within (Site.content name) (update fun _ => value)) := by
  intro site hready
  have hcurrent := hready.current.write name value
  refine keeps_step rfl hready.shielded hcurrent ?_
  exact ⟨Or.inl ⟨(), rfl⟩, rfl, rfl, rfl, hcurrent⟩

theorem Nest.tidies
    {nest : Nest κ α held β} (hfresh : fresh → nest.Fresh) :
    Tidies initially fresh held nest.program := by
  induction nest with
  | stop answer => exact tidies_stop answer
  | panic text => exact tidies_panic text
  | read name inside next ih =>
      exact (tidies_read name).bind fun value => ih value fun hf => hfresh hf value
  | write name inside value next ih =>
      exact (tidies_write name value).bind fun _ => ih hfresh
  | masked body next ihbody ihnext =>
      apply Tidies.bind
      · exact (ihbody fun hf => (hfresh hf).1).masked
      · exact fun answer => ihnext answer fun hf => (hfresh hf).2 answer
  | lockMasked name fresh body next ihbody ihnext =>
      apply Tidies.bind
      · exact (ihbody fun hf => (hfresh hf).1).lockMasked fresh
      · exact fun answer => ihnext answer fun hf => (hfresh hf).2 answer
  | withLock name body next ihbody ihnext =>
      apply Tidies.bind
      · exact (ihbody fun hf => (hfresh hf).2.1).withLock fun hf => (hfresh hf).1
      · exact fun answer => ihnext answer fun hf => (hfresh hf).2.2 answer

end Tidying

/-! ## Whole runs -/

section Running

variable [DecidableEq κ]

/-- Where code starts that is not inside any scope: all locks are free and
nothing has been noted. -/
def Nest.start
    (nest : Nest κ α [] β) (kind : LockKind) (log : Array Event) (guarded : Guarded κ α) :
    Moment κ (Site κ α) β :=
  (nest.program, ⟨.free kind, log, ⟨guarded, [], []⟩⟩)

variable {nest : Nest κ α [] β} {kind : LockKind} {log : Array Event} {guarded : Guarded κ α}

theorem Nest.keeps_passed
    {fresh : Prop} {last : Moment κ (Site κ α) β} (hfresh : fresh → nest.Fresh)
    (hpasses : Moment.Passes (nest.start kind log guarded) last) :
    ∃ own, (nesting guarded.values fresh).inv own () last.2.locks last.2.state ∧
      Keeps (nesting guarded.values fresh) own last.1
        (Leaves guarded.values [] ⟨guarded, [], []⟩) := by
  have hready : Site.Ready guarded.values [] ⟨guarded, [], []⟩ := ⟨fun _ => rfl, nofun, nofun⟩
  have htidies : Tidies guarded.values fresh [] nest.program := Nest.tidies hfresh
  apply (htidies _ hready).passes _ hpasses
  exact ⟨rfl, rfl, hready.shielded, hready.current⟩

/-- The code has ended or can go on, or it waits for a lock that it holds. -/
theorem Nest.progress_passed
    {last : Moment κ (Site κ α) β}
    (hpasses : Moment.Passes (nest.start kind log guarded) last) :
    (∃ result, last.1 = .done result) ∨ (∃ next, last.1.advance last.2 = some next) ∨
      ∃ name next, last.1 = .acquire name next ∧ name ∈ last.2.locks.held := by
  obtain ⟨own, hinv, hkeeps⟩ := Nest.keeps_passed False.elim hpasses
  rcases hkeeps.progress hinv with ⟨result, hdone, -⟩ | ⟨name, next, hacquire, hheld, -⟩ |
    hwait | hadvance
  · exact Or.inl ⟨result, hdone⟩
  · exact Or.inr (Or.inr ⟨name, next, hacquire, not_not.1 hheld⟩)
  · exact hwait.elim
  · exact Or.inr (Or.inl hadvance)

theorem Nest.exists_run (hfresh : nest.Fresh) :
    ∃ result m, nest.program.run (nest.start kind log guarded).2 = some (result, m) := by
  apply exists_run_of_progress
  intro last hpasses
  obtain ⟨own, hinv, hkeeps⟩ := Nest.keeps_passed (fun _ : True => hfresh) hpasses
  rcases hkeeps.progress hinv with ⟨result, hdone, -⟩ | ⟨name, next, -, hheld, htake⟩ |
    hwait | hadvance
  · exact Or.inl ⟨result, hdone⟩
  · rw [Locks.IsFree, hinv.1] at hheld
    exact absurd (htake trivial) hheld
  · exact hwait.elim
  · exact Or.inr hadvance

theorem Nest.leaves_of_run
    {result : Result β} {m : Machine κ (Site κ α)}
    (hrun : nest.program.run (nest.start kind log guarded).2 = some (result, m)) :
    Leaves guarded.values [] ⟨guarded, [], []⟩ result (m.locks.held, m.state) := by
  obtain ⟨own, ⟨hheld, hstate, -⟩, hleaves⟩ :=
    Nest.keeps_passed False.elim (passes_of_run hrun : Moment.Passes (nest.start _ _ _) _)
  rw [hheld, hstate]
  exact hleaves

end Running

/-- Guards put the interrupt flag back in whatever order they are dropped.  Locks
that are taken through masking guards, in scopes inside each other, are held with
interrupts disabled only, and all is put back however the code ends. -/
theorem guards_restore_interrupts [DecidableEq κ] :
    (∀ (start : Machine κ Bool) (commands : List Interrupts.Command),
      Interrupts.Named commands 0 →
      ∃ holder, Interrupts.obeyAll commands ⟨start, []⟩ = some holder ∧
        Interrupts.Balanced start.state holder ∧
        (holder.live = [] → holder.machine.state = start.state) ∧
        (Interrupts.Nested commands → holder.live ≠ [] → holder.machine.state = false)) ∧
    ∀ (nest : Nest κ α [] β) (kind : LockKind) (log : Array Event) (guarded : Guarded κ α),
      (∀ last, Moment.Passes (nest.start kind log guarded) last →
        last.2.state.Shielded last.2.locks.held ∧ last.2.state.Current guarded.values ∧
        ((∃ result, last.1 = .done result) ∨ (∃ next, last.1.advance last.2 = some next) ∨
          ∃ name next, last.1 = .acquire name next ∧ name ∈ last.2.locks.held)) ∧
      (∀ result m, nest.program.run (nest.start kind log guarded).2 = some (result, m) →
        ((∃ answer, result = .ok answer) ∨ ∃ text, result = .fault (.raised text)) ∧
        (∀ name, m.locks.IsFree name) ∧
        m.state.guarded.interrupts = guarded.interrupts ∧
        m.state.Current guarded.values) ∧
      (nest.Fresh →
        ∃ result m, nest.program.run (nest.start kind log guarded).2 = some (result, m)) := by
  refine ⟨?_, ?_⟩
  · intro start commands hnamed
    have hnil := Interrupts.balanced_nil start
    obtain ⟨holder, hobey, hbalanced⟩ := hnil.exists_obeyAll hnamed
    refine ⟨holder, hobey, hbalanced, ?_, ?_⟩
    · intro hlive
      rw [Bool.eq_iff_iff, hbalanced.enabled_iff, hlive]
      exact and_iff_left nofun
    · intro hnested hlive
      have hshielded : Interrupts.Shielded start.state holder :=
        Interrupts.Shielded.of_obeyAll ⟨.nil, rfl⟩ hnested hobey
      rw [hshielded.state, List.isEmpty_eq_false_iff.2 hlive]
      rfl
  · intro nest kind log guarded
    refine ⟨?_, ?_, Nest.exists_run⟩
    · intro last hpasses
      obtain ⟨own, ⟨hheld, -, hshielded, hcurrent⟩, -⟩ := Nest.keeps_passed False.elim hpasses
      rw [← hheld] at hshielded
      exact ⟨hshielded, hcurrent, Nest.progress_passed hpasses⟩
    · intro result m hrun
      have hleaves := Nest.leaves_of_run hrun
      refine ⟨hleaves.ending, ?_, hleaves.interrupts, hleaves.current⟩
      intro name hname
      have hnone : m.locks.held = [] := hleaves.held
      rw [hnone] at hname
      cases hname

/-- A panic while two locks are held, the outer one through a masking guard. -/
def panicking : Nest ℕ ℕ [] Unit :=
  .lockMasked 0 List.not_mem_nil
    (.write 0 List.mem_cons_self 5
      (.masked
        (.withLock 1 (.write 1 List.mem_cons_self 7 (.panic "while both are held")) .stop)
        .stop))
    .stop

/-- The older of two guards is dropped first.  Both locks are held at some moment,
with interrupts masked, and are freed by unwinding. -/
theorem guards_restore_interrupts_unwinding :
    (∃ holder, Interrupts.obeyAll [.create, .create, .drop 1, .drop 0]
        (⟨Machine.fresh .spin true, []⟩ : Interrupts.Holder ℕ) = some holder ∧
      (holder.live = [] → holder.machine.state = true)) ∧
    (∃ holder, Interrupts.obeyAll [.create, .create, .drop 0]
        (⟨Machine.fresh .spin true, []⟩ : Interrupts.Holder ℕ) = some holder ∧
      (holder.live ≠ [] → holder.machine.state = false)) ∧
    (∃ last, Moment.Passes (panicking.start .spin #[] (create fun _ => 0)) last ∧
      last.2.locks.held = [1, 0] ∧ last.2.state.masking = [0] ∧
      last.2.state.guarded.interrupts = false ∧ last.2.state.guarded.values 1 = 7) ∧
    ∃ result m, panicking.program.run (panicking.start .spin #[] (create fun _ => 0)).2 =
        some (result, m) ∧
      (∀ name, m.locks.IsFree name) ∧ m.state.guarded.interrupts = true ∧
      m.state.Current fun _ => 0 := by
  have hall := @guards_restore_interrupts ℕ ℕ Unit _
  obtain ⟨hmoments, hleaves, hends⟩ := hall.2 panicking .spin #[] (create fun _ => 0)
  refine ⟨?_, ?_, ?_, ?_⟩
  · obtain ⟨holder, hobey, -, hrestored, -⟩ :=
      hall.1 (.fresh .spin true) [.create, .create, .drop 1, .drop 0]
        ⟨Nat.one_lt_two, Nat.zero_lt_one, trivial⟩
    exact ⟨holder, hobey, hrestored⟩
  · obtain ⟨holder, hobey, -, -, hmasked⟩ :=
      hall.1 (.fresh .spin true) [.create, .create, .drop 0] ⟨Nat.zero_lt_two, trivial⟩
    refine ⟨holder, hobey, hmasked ?_⟩
    intro i hi
    simpa using hi
  · -- note, read the flag, mask, lock, write, read the flag, lock, write
    have hpasses : Moment.Passes (panicking.start .spin #[] (create fun _ => 0)) _ :=
      .head rfl (.head rfl (.head rfl (.head rfl (.head rfl (.head rfl (.head rfl
        (.head rfl .refl)))))))
    refine ⟨_, hpasses, rfl, rfl, ?_, rfl⟩
    exact (hmoments _ hpasses).1 0 List.mem_cons_self (List.mem_cons_of_mem 1 List.mem_cons_self)
  · have hfresh : panicking.Fresh :=
      ⟨⟨⟨by decide, trivial, fun _ => trivial⟩, fun _ => trivial⟩, fun _ => trivial⟩
    obtain ⟨result, m, hrun⟩ := hends hfresh
    obtain ⟨-, hfree, hflag, hcurrent⟩ := hleaves result m hrun
    exact ⟨result, m, hrun, hfree, hflag, hcurrent⟩

end Guarded

end KernelMemory
