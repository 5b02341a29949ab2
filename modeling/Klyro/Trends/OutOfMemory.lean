import Klyro.Trends.Execute

/-!
# What a server short of memory still accepts

* `Following P` — the relation between servers that is `P` of their keyspaces.
* `execute_payload_le` — a command that is not refused when memory is short never makes the keyspace
  hold more.
-/

set_option autoImplicit false

namespace Klyro

open Store Served

/-- A relation between keyspaces, of the servers that hold them. -/
def Following (P : Store → Store → Prop) (a a' : App) : Prop := P a.store a'.store

instance {P : Store → Store → Prop} [IsPreorder Store P] : Carries (Following P) P where
  refl a := refl_of P a.store
  trans _ _ _ h h' := trans_of P h h'
  same {a a'} h _ := by
    show P a.store a'.store
    rw [h]
    exact refl_of P a.store
  moved h := h

/-- What a lookup drops makes no key weigh more. -/
theorem Quiet.shrinks {e : Env} {s s' : Store} {w w' : World} (h : Quiet e s w s' w') : Shrinks s s' := by
  intro k
  rcases h.kept k id with hk | ⟨hk, -⟩
  · rw [hk]
  · rw [hk]
    exact Nat.zero_le _

/-- Writing the dump takes away only what expires meanwhile. -/
theorem save_shrinks : Act.Within (Following Shrinks) App.save := fun e a w =>
  Act.sat_mono (App.save_idles e a w) (fun _ _ _ hq => Quiet.shrinks hq) (fun _ _ => trivial)

/-- **No growth.**  Whatever the clock shows, a command that is not on the list of those refused
when memory is short leaves a keyspace that holds no more bytes than before. -/
theorem execute_payload_le (e : Env) (s : Served) (w : World) (name : String) (argv : List Bytes)
    (hdeny : deniesOom name = false) (hexec : name ≠ "EXEC") :
    Act.Sat (execute name argv) e s w (fun _ s' _ => s'.app.store.payload ≤ s.app.store.payload)
      (fun _ => True) := by
  have hfollows : Follows Shrinks name := fun htrend => htrend.shrinks hdeny
  have hwithin : Act.Within (Behind (Following Shrinks)) (execute name argv) :=
    executeWith_within evict_shrinks
      (runWith_within hfollows (fun _ => save_shrinks) fun h => absurd h hexec)
  refine Act.sat_mono (hwithin e s w) ?_ (fun _ h => h)
  exact fun _ s' _ (h : Shrinks s.app.store s'.app.store) => h.payload_le

/-- A server that holds the list `ab`, `c` under `k`. -/
def listServed : Served :=
  { freshServed with app := { store :=
    { map := (∅ : Assoc Bytes Entry).insert [107] ⟨.list [[97, 98], [99]], none, 0, none, ⟨0, 5, 0⟩⟩
      keys := [[107]] } } }

section

attribute [local irreducible] execute

/-- `LPOP k` takes the two bytes of the first element away. -/
theorem execute_payload_le_lpop :
    Act.Sat (execute "LPOP" [[76, 80, 79, 80], [107]]) (stillEnv 5) listServed {}
      (fun _ s' _ => s'.app.store.payload ≤ 4 ∧ s'.app.store.payload = 2) (fun _ => False) := by
  have hpopped : Act.Sat (execute "LPOP" [[76, 80, 79, 80], [107]]) (stillEnv 5) listServed {}
      (fun _ s' _ => s'.app.store.payload = 2) (fun _ => False) := by decide +kernel
  have hless := execute_payload_le (stillEnv 5) listServed {} "LPOP" [[76, 80, 79, 80], [107]]
    (by decide) (by decide)
  have hbefore : listServed.app.store.payload = 4 := by decide +kernel
  rw [hbefore] at hless
  exact Act.sat_mono (Act.sat_and hpopped hless) (fun _ _ _ h => ⟨h.2, h.1⟩) (fun _ h => h.1)

end

end Klyro
