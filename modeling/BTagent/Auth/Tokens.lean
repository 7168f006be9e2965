import BTagent.Lib.Timing

namespace BTagent

abbrev UserId := String

-- Times are microseconds, the claims `iat` and `exp` whole seconds.
structure AuthSettings where
  accessTokenTtlMinutes : ℕ
  refreshTokenTtlDays : ℕ

namespace AuthSettings

def accessTtl (settings : AuthSettings) : ℕ := settings.accessTokenTtlMinutes * 60

def refreshTtl (settings : AuthSettings) : ℕ := settings.refreshTokenTtlDays * 24 * 3600

end AuthSettings

structure RefreshToken where
  sub : UserId
  jti : ℕ
  fid : ℕ
  iat : ℕ
  exp : ℕ
  deriving DecidableEq

-- `fid` is no claim of an access token: it records the login that the token descends from.
structure AccessToken where
  sub : UserId
  jti : ℕ
  fid : ℕ
  iat : ℕ
  exp : ℕ
  deriving DecidableEq

namespace Auth

def seconds (now : ℕ) : ℕ := now / 1000000

-- Redis keeps the time of an entry in milliseconds.
def milliseconds (now : ℕ) : ℕ := now / 1000

-- `jwt.decode` compares whole seconds.
def accepts (exp now : ℕ) : Bool := seconds now ≤ exp

-- `_remaining_ttl`
def remainingTtl (exp now : ℕ) : ℕ := (exp * 1000000 - now) / 1000000

def createAccessToken (settings : AuthSettings) (now : ℕ) (sub : UserId) (jti fid : ℕ) :
    AccessToken :=
  ⟨sub, jti, fid, seconds now, seconds now + settings.accessTtl⟩

def createRefreshToken (settings : AuthSettings) (now : ℕ) (sub : UserId) (jti fid : ℕ) :
    RefreshToken :=
  ⟨sub, jti, fid, seconds now, seconds now + settings.refreshTtl⟩

-- `SET key value EX ttl`, which the callers skip for a TTL of zero.
def setEx {κ ν : Type*} [DecidableEq κ] (store : Expiring κ ν) (now : ℕ) (k : κ) (v : ν)
    (ttl : ℕ) : Expiring κ ν :=
  if ttl = 0 then store else store.set k v (milliseconds now + ttl * 1000)

section Spec
variable {κ ν : Type*} {store : Expiring κ ν} {now now' exp : ℕ} {k j : κ} {v : ν}

-- The entry of a key that is set to go with `exp` is there until the last second before it.
def Lasting (store : Expiring κ ν) (now exp : ℕ) (k : κ) : Prop :=
  (∃ v time, store k = some (v, time) ∧ exp * 1000000 < (time + 1) * 1000 + 1000000) ∨
    exp * 1000000 < now + 1000000

theorem Lasting.get (h : Lasting store now exp k) (hnow : now + 1000000 ≤ exp * 1000000) :
    (store.get (milliseconds now) k).isSome := by
  rcases h with ⟨v, time, hk, htime⟩ | hlate
  · have hle : milliseconds now ≤ time := by
      unfold milliseconds
      omega
    simp [Expiring.get_eq hk hle]
  · omega

theorem Lasting.mono (h : Lasting store now exp k) (hle : now ≤ now') :
    Lasting store now' exp k := by
  rcases h with h | h
  · exact Or.inl h
  · exact Or.inr (by omega)

variable [DecidableEq κ]

theorem setEx_ne (h : j ≠ k) {ttl : ℕ} : setEx store now k v ttl j = store j := by
  unfold setEx
  split
  · rfl
  · exact Expiring.set_ne h

theorem lasting_setEx {computed : ℕ} (hle : computed ≤ now) :
    Lasting (setEx store now k v (remainingTtl exp computed)) now exp k := by
  unfold setEx
  by_cases hzero : remainingTtl exp computed = 0
  · refine Or.inr ?_
    unfold remainingTtl at hzero
    omega
  · refine Or.inl ⟨v, _, by rw [if_neg hzero, Expiring.set_self], ?_⟩
    unfold remainingTtl milliseconds
    omega

theorem Lasting.setEx {computed : ℕ} {expk : ℕ} (h : Lasting store now exp j) (hle : computed ≤ now)
    (hexp : j = k → exp = expk) :
    Lasting (setEx store now k v (remainingTtl expk computed)) now exp j := by
  rcases eq_or_ne j k with rfl | hne
  · rw [hexp rfl]
    exact lasting_setEx hle
  · simpa only [Lasting, setEx_ne hne] using h

end Spec

end Auth

end BTagent
