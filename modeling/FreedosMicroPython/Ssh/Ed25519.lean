import FreedosMicroPython.Lib.Ledger
import FreedosMicroPython.Ssh.Hash
/-!
# Ed25519 keys

The Ed25519 functions of `port/libssh2_axtls.c`: the host key of a server and the identity of a
user, with what they allocate and write to file descriptor 1. A private key comes from memory;
the PEM layers around it and the reader of its strings are those of libssh2, and the
signatures those of TweetNaCl. Both are parameters here.
-/

namespace FreedosMicroPython.Ssh.Ed25519

open FreedosMicroPython.Lib.Action FreedosMicroPython.Lib.Ledger
open FreedosMicroPython.OsPath (str)
open FreedosMicroPython.Ssh.Hash (hexByte)

structure Libssh2 where
  /-- `_libssh2_openssh_pem_parse_memory`: a status, or what the decrypted buffer holds. -/
  opensshPemParseMemory : Option (List UInt8) → List UInt8 → Except Int (List UInt8)
  /-- `_libssh2_get_string`: a string and what is behind it. -/
  getString : List UInt8 → Option (List UInt8 × List UInt8)
  /-- `_libssh2_store_str`: the bytes that a string is stored as. -/
  storeStr : List UInt8 → List UInt8

structure TweetNacl where
  /-- `crypto_sign` of a message with a private key: the result and the signed message. -/
  cryptoSign : List UInt8 → List UInt8 → Int × List UInt8
  /-- `crypto_sign_open` of a signed message with a public key. -/
  cryptoSignOpen : List UInt8 → List UInt8 → Int

/-- A negative result, and the text given to `_libssh2_error`. -/
structure Error where
  code : Int
  msg : Option String
  deriving DecidableEq, Repr

abbrev Backend := Act Error (Heap × List UInt8)

def LIBSSH2_ERROR_PROTO : Int := -14
def LIBSSH2_ED25519_KEY_LEN : Nat := 32
def LIBSSH2_ED25519_PRIVATE_KEY_LEN : Nat := 64

structure Ed25519Ctx where
  publicKey : List UInt8
  privateKey : List UInt8
  havePrivate : Bool
  deriving DecidableEq, Repr

def write (buf : List UInt8) : Backend Unit := beside (· ++ buf)

/-! ## Keys of a server -/

/-- The context is allocated as zeros. -/
def libssh2AxtlsEd25519NewPublic (rawPubKey : List UInt8) (keyLen : Nat) :
    Backend (Nat × Ed25519Ctx) := do
  write (str "[ed:nP]")
  if keyLen ≠ 32 then
    write (str "[ed:nPlen-bad]")
    raise ⟨-1, none⟩
  else
    match ← malloc with
    | none =>
        write (str "[ed:nPalloc-fail]")
        raise ⟨-1, none⟩
    | some c =>
        write (str "[ed:nPok]")
        pure (c, ⟨rawPubKey.take 32, List.replicate 64 0, false⟩)

/-- `[H:…]`: the first 8 bytes of the message, in a field of 16 digits. -/
def messageDump (m : List UInt8) : List UInt8 :=
  let digits := (m.take 8).flatMap hexByte
  str "[H:" ++ digits ++ List.replicate (16 - digits.length) 0 ++ str "]"

variable (nacl : TweetNacl)

def libssh2AxtlsEd25519Verify (ctx : Nat × Ed25519Ctx) (sig m : List UInt8) : Backend Unit := do
  write (str "[ed:vE]")
  write (messageDump m)
  if sig.length ≠ 64 then raise ⟨-1, none⟩
  else
    match ← malloc with
    | none => raise ⟨-1, none⟩
    | some sm =>
        match ← malloc with
        | none =>
            free sm
            raise ⟨-1, none⟩
        | some out =>
            touch ctx.1
            let r := nacl.cryptoSignOpen (sig ++ m) ctx.2.publicKey
            free sm
            free out
            if r = 0 then pure () else raise ⟨-1, none⟩

/-! ## The identity of a user -/

variable (lib : Libssh2)

def stringBufFree (decrypted : Nat) : Backend Unit := free decrypted

/-- The next string of the decrypted buffer; the parse ends where there is none, or one that
is not `ok`. -/
def nextString (decrypted : Nat) (ok : List UInt8 → Bool) (msg : String) (data : List UInt8) :
    Backend (List UInt8 × List UInt8) :=
  match (lib.getString data).filter fun r => ok r.1 with
  | some r => pure r
  | none => do
      stringBufFree decrypted
      raise ⟨LIBSSH2_ERROR_PROTO, some msg⟩

/-- The decrypted buffer, the public key and the private key in it. -/
def axtlsEd25519ParsePriv (filedata : List UInt8) (passphrase : Option (List UInt8)) :
    Backend (Nat × List UInt8 × List UInt8) :=
  match lib.opensshPemParseMemory passphrase filedata with
  | .error rc => raise ⟨rc, none⟩
  | .ok data => do
      let decrypted ← hold
      let (_, data) ← nextString lib decrypted (fun kt => kt = str "ssh-ed25519")
        "ed25519 private key: unexpected keytype" data
      let (pub, data) ← nextString lib decrypted (fun pub => pub.length = LIBSSH2_ED25519_KEY_LEN)
        "ed25519 private key: bad pub length" data
      let (priv, _) ← nextString lib decrypted
        (fun priv => priv.length = LIBSSH2_ED25519_PRIVATE_KEY_LEN)
        "ed25519 private key: bad priv length" data
      pure (decrypted, pub, priv)

def libssh2AxtlsEd25519NewPrivateFrommemory (filedata : List UInt8)
    (passphrase : Option (List UInt8)) : Backend (Nat × Ed25519Ctx) := do
  let (decrypted, pub, priv) ← axtlsEd25519ParsePriv lib filedata passphrase
  match ← malloc with
  | none =>
      stringBufFree decrypted
      raise ⟨-1, none⟩
  | some c =>
      touch decrypted
      stringBufFree decrypted
      pure (c, ⟨pub, priv, true⟩)

/-- What is handed to libssh2: the blocks of the method and of the public key, and their
contents. -/
structure PublicKey where
  methodPtr : Nat
  method : List UInt8
  pubkeydataPtr : Nat
  pubkeydata : List UInt8
  deriving DecidableEq, Repr

def libssh2AxtlsPubPrivKeyfilememory (privatekeydata : List UInt8)
    (passphrase : Option (List UInt8)) : Backend PublicKey := do
  let (decrypted, pub, _) ← axtlsEd25519ParsePriv lib privatekeydata passphrase
  match ← malloc with
  | none =>
      stringBufFree decrypted
      raise ⟨-1, none⟩
  | some m =>
      match ← malloc with
      | none =>
          free m
          stringBufFree decrypted
          raise ⟨-1, none⟩
      | some blob =>
          touch decrypted
          stringBufFree decrypted
          pure ⟨m, str "ssh-ed25519", blob, lib.storeStr (str "ssh-ed25519") ++ lib.storeStr pub⟩

/-- The block of the signature, and the signature. `ctx` is `none` where the pointer is null. -/
def libssh2AxtlsEd25519Sign (ctx : Option (Nat × Ed25519Ctx)) (message : List UInt8) :
    Backend (Nat × List UInt8) :=
  match ctx with
  | none => raise ⟨-1, none⟩
  | some (c, ctx) => do
      touch c
      if !ctx.havePrivate then raise ⟨-1, none⟩
      else
        match ← malloc with
        | none => raise ⟨-1, none⟩
        | some sm =>
            let (rc, signed) := nacl.cryptoSign message ctx.privateKey
            if rc ≠ 0 ∨ signed.length < 64 then
              free sm
              raise ⟨-1, none⟩
            else
              match ← malloc with
              | none =>
                  free sm
                  raise ⟨-1, none⟩
              | some sig =>
                  touch sm
                  free sm
                  pure (sig, signed.take 64)

/-- The context is overwritten with zeros before it is freed. -/
def libssh2AxtlsEd25519Free (ctx : Option Nat) : Backend Unit :=
  match ctx with
  | none => pure ()
  | some c => do
      touch c
      free c

/-! ## What each function takes -/

variable {kept ins : List Nat}

theorem takes_write (buf : List UInt8) :
    Takes kept ins (write buf) (fun _ => ins) fun _ => True := takes_beside _

variable {α : Type} {outs : α → List Nat} {fact : α → Prop} in
theorem takes_freeRaise (p : Nat) (e : Error) :
    Takes kept [p] (do free p; raise e : Backend α) outs fact :=
  (takes_free (.refl _)).bind fun _ _ => takes_raise e

theorem takes_newPublic (rawPubKey : List UInt8) (keyLen : Nat) :
    Takes [] [] (libssh2AxtlsEd25519NewPublic rawPubKey keyLen) (fun r => [r.1])
      fun r => keyLen = 32 ∧ r.2 = ⟨rawPubKey.take 32, List.replicate 64 0, false⟩ := by
  unfold libssh2AxtlsEd25519NewPublic
  refine (takes_write _).bind fun _ _ => ?_
  split
  · exact (takes_write _).bind fun _ _ => takes_raise _
  · next hlen =>
      refine takes_malloc.bind fun r _ => ?_
      cases r with
      | none => exact (takes_write _).bind fun _ _ => takes_raise _
      | some c =>
          refine (takes_write _).bind fun _ _ => takes_pure rfl ⟨?_, rfl⟩
          exact not_not.mp hlen

theorem takes_verify (ctx : Nat × Ed25519Ctx) (sig m : List UInt8) :
    Takes [ctx.1] [] (libssh2AxtlsEd25519Verify nacl ctx sig m) (fun _ => [])
      fun _ => sig.length = 64 ∧ nacl.cryptoSignOpen (sig ++ m) ctx.2.publicKey = 0 := by
  unfold libssh2AxtlsEd25519Verify
  refine (takes_write _).bind fun _ _ => (takes_write _).bind fun _ _ => ?_
  split
  · exact takes_raise _
  · next hlen =>
      refine takes_malloc.bind fun r _ => ?_
      cases r with
      | none => exact takes_raise _
      | some sm =>
          refine takes_malloc.bind fun r _ => ?_
          cases r with
          | none => exact takes_freeRaise _ _
          | some out =>
              refine (takes_touch (.inr List.mem_cons_self)).bind fun _ _ => ?_
              refine (takes_free (.swap _ _ _)).bind fun _ _ => ?_
              refine (takes_free (.refl _)).bind fun _ _ => ?_
              split
              · next hopen => exact takes_pure rfl ⟨not_not.mp hlen, hopen⟩
              · exact takes_raise _

theorem takes_nextString (decrypted : Nat) (ok : List UInt8 → Bool) (msg : String)
    (data : List UInt8) :
    Takes kept [decrypted] (nextString lib decrypted ok msg data) (fun _ => [decrypted])
      fun r => lib.getString data = some r ∧ ok r.1 = true := by
  unfold nextString
  split
  · next r hr =>
      obtain ⟨hget, hok⟩ := Option.filter_eq_some_iff.mp hr
      exact takes_pure rfl ⟨hget, hok⟩
  · exact takes_freeRaise _ _

/-- The decrypted buffer begins with the strings of an Ed25519 key. -/
def KeysIn (filedata : List UInt8) (passphrase : Option (List UInt8)) (pub priv : List UInt8) :
    Prop :=
  ∃ data keys rest more, lib.opensshPemParseMemory passphrase filedata = .ok data ∧
    lib.getString data = some (str "ssh-ed25519", keys) ∧
    lib.getString keys = some (pub, rest) ∧ pub.length = LIBSSH2_ED25519_KEY_LEN ∧
    lib.getString rest = some (priv, more) ∧ priv.length = LIBSSH2_ED25519_PRIVATE_KEY_LEN

theorem takes_parsePriv (filedata : List UInt8) (passphrase : Option (List UInt8)) :
    Takes kept [] (axtlsEd25519ParsePriv lib filedata passphrase) (fun r => [r.1])
      fun r => KeysIn lib filedata passphrase r.2.1 r.2.2 := by
  unfold axtlsEd25519ParsePriv
  split
  · exact takes_raise _
  · next data hdata =>
      refine takes_hold.bind fun decrypted _ => ?_
      refine (takes_nextString lib _ _ _ _).bind fun (kt, keys) hkt => ?_
      refine (takes_nextString lib _ _ _ _).bind fun (pub, rest) hpub => ?_
      refine (takes_nextString lib _ _ _ _).bind fun (priv, more) hpriv => ?_
      have hkind : kt = str "ssh-ed25519" := of_decide_eq_true hkt.2
      refine takes_pure rfl ⟨data, keys, rest, more, hdata, ?_, hpub.1, ?_, hpriv.1, ?_⟩
      · rw [hkt.1, hkind]
      · exact of_decide_eq_true hpub.2
      · exact of_decide_eq_true hpriv.2

theorem takes_newPrivateFrommemory (filedata : List UInt8) (passphrase : Option (List UInt8)) :
    Takes kept [] (libssh2AxtlsEd25519NewPrivateFrommemory lib filedata passphrase)
      (fun r => [r.1]) fun r => r.2.havePrivate = true ∧
        KeysIn lib filedata passphrase r.2.publicKey r.2.privateKey := by
  unfold libssh2AxtlsEd25519NewPrivateFrommemory
  refine (takes_parsePriv lib _ _).bind fun (decrypted, pub, priv) hkeys => ?_
  refine takes_malloc.bind fun r _ => ?_
  cases r with
  | none => exact takes_freeRaise _ _
  | some c =>
      refine (takes_touch (.inl (by simp))).bind fun _ _ => ?_
      refine (takes_free (.swap _ _ _)).bind fun _ _ => ?_
      exact takes_pure rfl ⟨rfl, hkeys⟩

theorem takes_pubPrivKeyfilememory (filedata : List UInt8) (passphrase : Option (List UInt8)) :
    Takes kept [] (libssh2AxtlsPubPrivKeyfilememory lib filedata passphrase)
      (fun r => [r.pubkeydataPtr, r.methodPtr]) fun r => r.method = str "ssh-ed25519" ∧
        ∃ pub priv, KeysIn lib filedata passphrase pub priv ∧
          r.pubkeydata = lib.storeStr (str "ssh-ed25519") ++ lib.storeStr pub := by
  unfold libssh2AxtlsPubPrivKeyfilememory
  refine (takes_parsePriv lib _ _).bind fun (decrypted, pub, priv) hkeys => ?_
  refine takes_malloc.bind fun r _ => ?_
  cases r with
  | none => exact takes_freeRaise _ _
  | some m =>
      refine takes_malloc.bind fun r _ => ?_
      cases r with
      | none => exact (takes_free (.refl _)).bind fun _ _ => takes_freeRaise _ _
      | some blob =>
          refine (takes_touch (.inl (by simp))).bind fun _ _ => ?_
          have hlast : [blob, m, decrypted].Perm [decrypted, blob, m] :=
            List.perm_append_singleton decrypted [blob, m]
          refine (takes_free hlast).bind fun _ _ => ?_
          exact takes_pure rfl ⟨rfl, pub, priv, hkeys, rfl⟩

theorem takes_sign (ctx : Option (Nat × Ed25519Ctx)) (message : List UInt8) :
    Takes (ctx.toList.map Prod.fst) [] (libssh2AxtlsEd25519Sign nacl ctx message) (fun r => [r.1])
      fun r => ∃ c, ctx = some c ∧ c.2.havePrivate = true ∧
        ∃ signed, nacl.cryptoSign message c.2.privateKey = (0, signed) ∧ 64 ≤ signed.length ∧
          r.2 = signed.take 64 := by
  unfold libssh2AxtlsEd25519Sign
  split
  · exact takes_raise _
  · next c ctx =>
      refine (takes_touch (.inr List.mem_cons_self)).bind fun _ _ => ?_
      split
      · exact takes_raise _
      · next hprivate =>
          refine takes_malloc.bind fun r _ => ?_
          cases r with
          | none => exact takes_raise _
          | some sm =>
              rcases hsign : nacl.cryptoSign message ctx.privateKey with ⟨rc, signed⟩
              dsimp only
              split
              · exact takes_freeRaise _ _
              · next hok =>
                  obtain ⟨hrc, hlen⟩ := not_or.mp hok
                  refine takes_malloc.bind fun r _ => ?_
                  cases r with
                  | none => exact takes_freeRaise _ _
                  | some sig =>
                      refine (takes_touch (.inl (by simp))).bind fun _ _ => ?_
                      refine (takes_free (.swap _ _ _)).bind fun _ _ => ?_
                      refine takes_pure rfl ⟨(c, ctx), rfl, by simpa using hprivate, signed, ?_, ?_,
                        rfl⟩
                      · rw [hsign, not_not.mp hrc]
                      · exact Nat.le_of_not_lt hlen

theorem takes_ed25519Free (ctx : Option Nat) :
    Takes kept ctx.toList (libssh2AxtlsEd25519Free ctx) (fun _ => []) fun _ => True := by
  cases ctx with
  | none => exact takes_pure rfl trivial
  | some c =>
      refine (takes_touch (.inl List.mem_cons_self)).bind fun _ _ => ?_
      exact takes_free (.refl _)

end FreedosMicroPython.Ssh.Ed25519
