import Scissy.Interaction.Pool
import Scissy.Security.AuthorizedKeys

/-!
# Two changes of keys at once

A call that changes keys writes the table, truncates the file, reads the table, and prints it line
by line at its own offset. Two such calls share the file and nothing orders them.

The call that truncates last reads a table that nobody changes any more, so what it prints is
right. The other one may still be printing what it has read before: if that is not what the file
should contain, a removed key comes back. `Stage` says where a call stands, and
`revocation_kept` that the file ends up right as long as no call truncates it while the other one
still has something else to print.

## Stages

The program of a call is a long tree, most of which is of no interest here. A `Stage` says what is
left of it: the statement, the opening of the file, the reading of the rows, and the printing of the
rows that are left, from an offset. Its `program` is that rest of the tree, so a fact about a stage
is a fact about a thread, and the steps are the steps of the pool.

## The file in pieces

Each call has an offset of its own, so two calls that print overwrite each other's lines. What is
printed is compared with the printout of the table at the same place: a rest `Fits` if it is the
rest of the printout from its offset on. A call that fits does no harm, however often it is
interrupted, and one that has also written everything before its offset `Leads`.
-/

open Interaction Interaction.Prog

namespace Scissy

/-! ## Where a call stands -/

/-- The response of both calls. -/
def keysChanged : HttpResponse :=
  .api { outcome := .returned true (.statusMsg { status := some .kSucceed }) }

/-- What is left of a call that changes keys. -/
inductive Stage
  | changing (s : Write)
  | opening
  | reading
  | printing (offset : ℕ) (rows : List (ℤ × ℤ × Bytes))

namespace Stage

/-- The rest of the program. -/
def program (d : Deployment) : Stage → Server HttpResponse
  | changing s => .call (.write s) fun _ ↦ .call .openAuthKeys fun _ ↦
      .call (.query .genAuthorizedKeys) fun rows ↦
        writeAuthorizedKeys d 0 rows >>= fun _ ↦ done keysChanged
  | opening => .call .openAuthKeys fun _ ↦ .call (.query .genAuthorizedKeys) fun rows ↦
      writeAuthorizedKeys d 0 rows >>= fun _ ↦ done keysChanged
  | reading => .call (.query .genAuthorizedKeys) fun rows ↦
      writeAuthorizedKeys d 0 rows >>= fun _ ↦ done keysChanged
  | printing offset rows => writeAuthorizedKeys d offset rows >>= fun _ ↦ done keysChanged

/-- The next step of the call. -/
def next (d : Deployment) (e : Env) (w : World) : Stage → Stage × World
  | changing s => (opening, (w.write e s).2)
  | opening => (reading, { w with authKeys := [] })
  | reading => (printing 0 (Query.genAuthorizedKeys.rows e.pick w.db), w)
  | printing offset [] => (printing offset [], w)
  | printing offset ((userId, keyType, key) :: rows) =>
    let line := authorizedKeysLine d userId keyType key ++ [newline]
    (printing (offset + line.length) rows,
      { w with authKeys := TextFile.overwrite 0 w.authKeys offset line })

/-- The file has been truncated. -/
def Opened : Stage → Prop
  | reading | printing _ _ => True
  | changing _ | opening => False

variable {d : Deployment}

theorem step_program {c : Pool Bool Op World HttpResponse} {b : Bool} {stage : Stage}
    (h : c.threads b = stage.program d) (e : Env) :
    (c.step b e).threads b = (stage.next d e c.world).1.program d ∧
      (c.step b e).world = (stage.next d e c.world).2 := by
  cases stage with
  | printing offset rows =>
    cases rows with
    | nil =>
      rw [Pool.step_of_done h]
      exact ⟨h, rfl⟩
    | cons row rows => exact ⟨Pool.step_threads_of_call h, Pool.step_world_of_call h⟩
  | _ => exact ⟨Pool.step_threads_of_call h, Pool.step_world_of_call h⟩

theorem of_program_eq_done {stage : Stage} {response : HttpResponse}
    (h : stage.program d = .done response) : ∃ offset, stage = printing offset [] := by
  cases stage with
  | printing offset rows =>
    cases rows with
    | nil => exact ⟨offset, rfl⟩
    | cons row rows => cases h
  | changing | opening | reading => cases h

end Stage

/-- The two calls that change keys. -/
def IsKeyChange (d : Deployment) (p : Server HttpResponse) : Prop :=
  ∃ session request, p = .api <$> dispatch d (some session) (.userAddSshKey request) ∨
    p = .api <$> dispatch d (some session) (.userRemoveSshKey request)

theorem changeSshKeys_program (d : Deployment) (s : Write) :
    HttpResponse.api <$> answer .statusMsg (Service.changeSshKeys d s) =
      (Stage.changing s).program d := by
  rw [map_eq_pure_bind, answer, Service.changeSshKeys, LawfulMonad.bind_assoc,
    LawfulMonad.bind_assoc]
  refine congrArg (Prog.call (Op.write s)) (funext fun rc ↦ ?_)
  have hrc : ¬ (!decide (rc.code ≠ 0)) = true := by simp [rc.code_ne_zero]
  dsimp only [Prog.bind]
  rw [if_neg hrc, genAuthorizedKeys]
  simp only [LawfulMonad.bind_assoc]
  rfl

theorem IsKeyChange.exists_changing {d : Deployment} {p : Server HttpResponse}
    (h : IsKeyChange d p) : ∃ s, p = (Stage.changing s).program d := by
  obtain ⟨session, request, rfl | rfl⟩ := h
  · exact ⟨_, changeSshKeys_program d _⟩
  · exact ⟨_, changeSshKeys_program d _⟩

/-! ## The file while two calls use it -/

/-- What a call prints for some rows. -/
def printout (d : Deployment) (rows : List (ℤ × ℤ × Bytes)) : Bytes :=
  TextFile.unlines newline (rows.map fun r ↦ authorizedKeysLine d r.1 r.2.1 r.2.2)

theorem printout_cons (d : Deployment) (userId keyType : ℤ) (key : Bytes)
    (rows : List (ℤ × ℤ × Bytes)) : printout d ((userId, keyType, key) :: rows) =
      (authorizedKeysLine d userId keyType key ++ [newline]) ++ printout d rows := by
  rw [printout, List.map_cons, TextFile.unlines_cons, List.append_assoc, List.singleton_append]
  rfl

theorem printout_rows (d : Deployment) (pick : ℕ) (db : Database) :
    printout d (Query.genAuthorizedKeys.rows pick db) = keyFile d db := by
  rw [printout, Query.rows, List.map_map, keyFile]
  rfl

/-- What a call has still to print belongs where it stands. -/
def Stage.Fits (d : Deployment) (whole : Bytes) : Stage → Prop
  | printing offset rows => rows = [] ∨ printout d rows = whole.drop offset
  | _ => True

/-- A call that has printed the first `n` bytes of the file, and will print the rest. -/
def Stage.Leads (d : Deployment) (whole : Bytes) (n : ℕ) : Stage → Prop
  | reading => n = 0
  | printing offset rows => offset = n ∧ printout d rows = whole.drop n
  | changing _ | opening => False

/-- Once both calls have truncated the file, one of them leads, and the other one fits. -/
def Converging (d : Deployment) (stages : Bool → Stage) (w : World) : Prop :=
  (∀ b, (stages b).Opened) → ∃ b n, TextFile.Agrees (keyFile d w.db) n w.authKeys ∧
    (stages b).Leads d (keyFile d w.db) n ∧ (stages !b).Fits d (keyFile d w.db)

variable {d : Deployment} {stages : Bool → Stage} {w : World} {b : Bool}

theorem printout_drop {whole : Bytes} {offset : ℕ} {userId keyType : ℤ} {key : Bytes}
    {rows : List (ℤ × ℤ × Bytes)}
    (h : printout d ((userId, keyType, key) :: rows) = whole.drop offset) :
    let line := authorizedKeysLine d userId keyType key ++ [newline]
    whole.drop offset = line ++ printout d rows ∧ offset ≤ whole.length ∧
      printout d rows = whole.drop (offset + line.length) := by
  intro line
  have hdrop : whole.drop offset = line ++ printout d rows := h.symm.trans (printout_cons d ..)
  refine ⟨hdrop, ?_, ?_⟩
  · by_contra hlt
    rw [List.drop_eq_nil_of_le (by omega)] at hdrop
    simp [line] at hdrop
  · rw [← List.drop_drop, hdrop, List.drop_left]

/-- Of two calls one leads, and the other one fits. -/
def Led (d : Deployment) (whole keys : Bytes) (stage other : Stage) : Prop :=
  ∃ n, TextFile.Agrees whole n keys ∧
    ((stage.Leads d whole n ∧ other.Fits d whole) ∨ (other.Leads d whole n ∧ stage.Fits d whole))

theorem converging_iff (b : Bool) : Converging d stages w ↔ ((stages b).Opened →
    (stages !b).Opened → Led d (keyFile d w.db) w.authKeys (stages b) (stages !b)) := by
  constructor
  · intro h hself hother
    have hopened (b' : Bool) : (stages b').Opened := by
      rcases Bool.eq_or_eq_not b' b with rfl | rfl
      · exact hself
      · exact hother
    obtain ⟨b', n, hagrees, hleads, hfits⟩ := h hopened
    rcases Bool.eq_or_eq_not b' b with rfl | rfl
    · exact ⟨n, hagrees, Or.inl ⟨hleads, hfits⟩⟩
    · rw [Bool.not_not] at hfits
      exact ⟨n, hagrees, Or.inr ⟨hleads, hfits⟩⟩
  · intro h hopened
    obtain ⟨n, hagrees, ⟨hleads, hfits⟩ | ⟨hleads, hfits⟩⟩ := h (hopened b) (hopened !b)
    · exact ⟨b, n, hagrees, hleads, hfits⟩
    · exact ⟨!b, n, hagrees, hleads, (Bool.not_not b).symm ▸ hfits⟩

/-- **One step** of a call whose truncation meets nothing but what fits. -/
theorem Stage.led_next {stage other : Stage} (e : Env)
    (h : stage.Opened → Led d (keyFile d w.db) w.authKeys stage other)
    (hopen : stage = .opening → other.Fits d (keyFile d w.db))
    (hopened : (stage.next d e w).1.Opened) :
    Led d (keyFile d (stage.next d e w).2.db) (stage.next d e w).2.authKeys
      (stage.next d e w).1 other := by
  cases stage with
  | changing s => exact hopened.elim
  | opening =>
    -- the file is empty now, and this call is going to print all of it
    have hempty : TextFile.Agrees (keyFile d w.db) 0 [] := ⟨fun i ↦ nofun, le_rfl, Nat.zero_le _⟩
    exact ⟨0, hempty, Or.inl ⟨rfl, hopen rfl⟩⟩
  | reading =>
    have hrows := printout_rows d e.pick w.db
    obtain ⟨n, hagrees, ⟨hleads, hfits⟩ | ⟨hleads, -⟩⟩ := h trivial
    · obtain rfl : n = 0 := hleads
      exact ⟨0, hagrees, Or.inl ⟨⟨rfl, hrows⟩, hfits⟩⟩
    · exact ⟨n, hagrees, Or.inr ⟨hleads, Or.inr hrows⟩⟩
  | printing offset rows =>
    obtain ⟨n, hagrees, hled⟩ := h trivial
    cases rows with
    | nil => exact ⟨n, hagrees, hled⟩
    | cons row rows =>
      obtain ⟨userId, keyType, key⟩ := row
      obtain ⟨⟨rfl, hprint⟩, hfits⟩ | ⟨hleads, hfits⟩ := hled
      · obtain ⟨hdrop, -, hrest⟩ := printout_drop hprint
        exact ⟨_, hagrees.extend hdrop, Or.inl ⟨⟨rfl, hrest⟩, hfits⟩⟩
      · -- the follower prints over the leader's lines what they already say, or ahead of them
        obtain ⟨hdrop, hoffset, hrest⟩ := printout_drop (hfits.resolve_left nofun)
        exact ⟨n, hagrees.overwrite hoffset hdrop, Or.inr ⟨hleads, Or.inr hrest⟩⟩

theorem Converging.step (h : Converging d stages w) (e : Env)
    (hopen : stages b = .opening → (stages !b).Fits d (keyFile d w.db)) :
    Converging d (Function.update stages b ((stages b).next d e w).1)
      ((stages b).next d e w).2 := by
  rw [converging_iff b, Function.update_self, Function.update_of_ne (Bool.not_ne_self b)]
  intro hself hother
  exact Stage.led_next e (fun hopened ↦ (converging_iff b).mp h hopened hother) hopen hself

/-! ## Every interleaving -/

/-- If the thread is about to truncate the file, what the other one has still to print is what the
printout of the table has there. -/
def TruncatesSafely (d : Deployment) (c : Pool Bool Op World HttpResponse) (b : Bool) (_ : Env) :
    Prop :=
  c.threads b = Stage.opening.program d → ∀ offset rows,
    c.threads (!b) = (Stage.printing offset rows).program d →
      (Stage.printing offset rows).Fits d (keyFile d c.world.db)

/-- The lines of the file are the lines that the rows of the table print. -/
def RevocationKept (d : Deployment) (w : World) : Prop :=
  ∀ l, l ∈ TextFile.lines newline w.authKeys ↔
    ∃ r ∈ w.db.usersSshKeys.rows, l ∈ TextFile.lines newline (keyLine d r.2 ++ [newline])

theorem Rendered.revocationKept (h : Rendered d w) : RevocationKept d w := by
  intro l
  rw [h, keyFile, TextFile.lines_unlines_eq_flatMap, List.mem_flatMap]
  simp only [List.mem_map, exists_exists_and_eq_and]

variable {c : Pool Bool Op World HttpResponse} {s : List (Bool × Env)}

/-- Both threads stand somewhere in a call, and the file is converging. -/
def KeysInvariant (d : Deployment) (c : Pool Bool Op World HttpResponse) : Prop :=
  ∃ stages : Bool → Stage, (∀ b, c.threads b = (stages b).program d) ∧ Converging d stages c.world

theorem KeysInvariant.step (h : KeysInvariant d c) (b : Bool) (e : Env)
    (hsafe : TruncatesSafely d c b e) : KeysInvariant d (c.step b e) := by
  obtain ⟨stages, hprogram, hconverging⟩ := h
  obtain ⟨hself, hworld⟩ := Stage.step_program (hprogram b) e
  refine ⟨Function.update stages b ((stages b).next d e c.world).1, fun b' ↦ ?_, ?_⟩
  · by_cases hb : b' = b
    · subst hb
      rwa [Function.update_self]
    · rw [Function.update_of_ne hb, Pool.step_threads_of_ne hb]
      exact hprogram b'
  · rw [hworld]
    refine hconverging.step e fun hopening ↦ ?_
    cases hother : stages !b with
    | printing offset rows =>
      have hthread := hprogram !b
      rw [hother] at hthread
      exact hsafe (hopening ▸ hprogram b) offset rows hthread
    | changing | opening | reading => trivial

/-- **Revocations among each other.** Two calls that change keys leave the lines of the stored
keys, if neither truncates the file while the other one has still something else to print. -/
theorem revocation_kept (hcalls : ∀ b, IsKeyChange d (c.threads b))
    (hsafe : c.Along (TruncatesSafely d) s)
    (hdone : ∀ b, ∃ response, (c.run s).threads b = .done response) :
    RevocationKept d (c.run s).world := by
  have hstart : KeysInvariant d c := by
    choose s hs using fun b ↦ (hcalls b).exists_changing
    exact ⟨fun b ↦ .changing (s b), hs, fun hopened ↦ (hopened true).elim⟩
  obtain ⟨stages, hprogram, hconverging⟩ : KeysInvariant d (c.run s) :=
    Pool.Along.induction (I := KeysInvariant d) (fun _ b e hok h ↦ h.step b e hok) hsafe hstart
  have hprinted (b : Bool) : ∃ offset, stages b = .printing offset [] := by
    obtain ⟨response, hresponse⟩ := hdone b
    exact Stage.of_program_eq_done ((hprogram b).symm.trans hresponse)
  have hopened (b : Bool) : (stages b).Opened := by
    obtain ⟨offset, hb⟩ := hprinted b
    rw [hb]
    trivial
  obtain ⟨b, n, hagrees, hleads, -⟩ := hconverging hopened
  obtain ⟨offset, hb⟩ := hprinted b
  rw [hb] at hleads
  have hend : (keyFile d (c.run s).world.db).length ≤ n := List.drop_eq_nil_iff.mp hleads.2.symm
  exact Rendered.revocationKept (hagrees.eq_whole hend)

/-! ## Opening the file calmly -/

/-- The next operation opens the file. -/
def opensNext : Server HttpResponse → Bool
  | .call .openAuthKeys _ => true
  | _ => false

/-- The next operation prints a line. -/
def printsNext : Server HttpResponse → Bool
  | .call (.writeAuthKeys _ _) _ => true
  | _ => false

theorem Stage.fits_of_not_printsNext {p : Server HttpResponse} {offset : ℕ}
    {rows : List (ℤ × ℤ × Bytes)} {whole : Bytes} (h : printsNext p = false)
    (hp : p = (printing offset rows).program d) : (printing offset rows).Fits d whole := by
  cases rows with
  | nil => exact Or.inl rfl
  | cons row rows =>
    rw [hp] at h
    cases h

section Calmly

variable {ι : Type} [DecidableEq ι] {ks : List ι} {c : Pool ι Op World HttpResponse}
  {s : List (ι × Env)}

/-- None of the threads of `ks` is about to print a line when the file is opened. -/
def opensCalmly (ks : List ι) : Pool ι Op World HttpResponse → List (ι × Env) → Bool
  | _, [] => true
  | c, (i, e) :: s =>
    (!opensNext (c.threads i) || ks.all fun k ↦ decide (k = i) || !printsNext (c.threads k)) &&
      opensCalmly ks (c.step i e) s

theorem along_of_opensCalmly (hrest : ∀ k ∉ ks, printsNext (c.threads k) = false)
    (hs : ∀ p ∈ s, p.1 ∈ ks) (h : opensCalmly ks c s = true) :
    c.Along (fun c i _ ↦ opensNext (c.threads i) = true →
      ∀ k ≠ i, printsNext (c.threads k) = false) s := by
  induction s generalizing c with
  | nil => trivial
  | cons p s ih =>
    obtain ⟨i, e⟩ := p
    rw [List.forall_mem_cons] at hs
    rw [opensCalmly, Bool.and_eq_true] at h
    refine ⟨fun hopens k hk ↦ ?_, ih (fun k hk ↦ ?_) hs.2 h.2⟩
    · by_cases hmem : k ∈ ks
      · have hall := h.1
        rw [hopens, Bool.not_true, Bool.false_or, List.all_eq_true] at hall
        simpa [hk] using hall k hmem
      · exact hrest k hmem
    · rw [Pool.step_threads_of_ne (ne_of_mem_of_not_mem hs.1 hk).symm]
      exact hrest k hk

end Calmly

theorem truncatesSafely_of_calm {b : Bool} {e : Env}
    (h : opensNext (c.threads b) = true → ∀ k ≠ b, printsNext (c.threads k) = false) :
    TruncatesSafely d c b e := by
  intro hopening offset rows hrows
  refine Stage.fits_of_not_printsNext (h ?_ (!b) (Bool.not_ne_self b)) hrows
  rw [hopening]
  rfl

/-! ## Two calls -/

/-- One user removes a key while another one adds one. -/
def removeAndAdd : Pool Bool Op World HttpResponse where
  threads
    | true => .api <$> dispatch .plain (some { user := text "u", userId := 1 })
        (.userRemoveSshKey { key := { type := .kSshKeyRsa, key := [], keyId := some 1 } })
    | false => .api <$> dispatch .plain (some { user := text "v", userId := 2 })
        (.userAddSshKey { key := { type := .kSshKeyRsa, key := text "BBBB" } })
  world := { World.initial with
    db := Write.applyAll 0 .twoSessions [.insertUserSshKey 1 0 (text "AAAA") []] }

theorem removeAndAdd_isKeyChange (b : Bool) : IsKeyChange .plain (removeAndAdd.threads b) := by
  cases b with
  | true => exact ⟨_, _, Or.inr rfl⟩
  | false => exact ⟨_, _, Or.inl rfl⟩

/-- The key is added before the table is read for the call that removes the other one. -/
theorem revocation_kept_interleaved :
    let s : List (Bool × Env) := [true, false, true, true, true, false, false, false].map (·, {})
    RevocationKept .plain (removeAndAdd.run s).world := by
  intro s
  have hthreads : ∀ p ∈ s, p.1 ∈ [true, false] := by decide
  have hrest : ∀ b ∉ [true, false], printsNext (removeAndAdd.threads b) = false := by decide
  refine revocation_kept removeAndAdd_isKeyChange ?_ fun b ↦ ?_
  · refine (along_of_opensCalmly hrest hthreads ?_).imp fun _ _ _ h ↦ truncatesSafely_of_calm h
    decide +kernel
  · cases b <;> exact ⟨_, rfl⟩

/-- The removed key is printed last. -/
theorem not_revocationKept :
    let s : List (Bool × Env) :=
      [false, false, false, true, true, true, true, false, false].map (·, {})
    let removed := authorizedKeysLine .plain 1 0 (text "AAAA")
    (∀ b, IsKeyChange .plain (removeAndAdd.threads b)) ∧
      (∀ b, ∃ response, (removeAndAdd.run s).threads b = .done response) ∧
      ¬ RevocationKept .plain (removeAndAdd.run s).world ∧
      removed ∈ TextFile.lines newline (removeAndAdd.run s).world.authKeys ∧
      (removeAndAdd.run s).world.db.usersSshKeys.rows.map (·.2.key) = [text "BBBB"] := by
  intro s removed
  have hmem : removed ∈ TextFile.lines newline (removeAndAdd.run s).world.authKeys := by
    decide +kernel
  have hnone : ¬ ∃ r ∈ (removeAndAdd.run s).world.db.usersSshKeys.rows,
      removed ∈ TextFile.lines newline (keyLine .plain r.2 ++ [newline]) := by
    decide +kernel
  refine ⟨removeAndAdd_isKeyChange, fun b ↦ ?_, fun h ↦ hnone ((h removed).mp hmem), hmem, ?_⟩
  · cases b <;> exact ⟨_, rfl⟩
  · decide +kernel

end Scissy
