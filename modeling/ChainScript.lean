import ChainScript.Host
import ChainScript.Proofs.Frozen
import ChainScript.Proofs.Registration
import ChainScript.Proofs.ReservedSymbols
import ChainScript.Proofs.StoreSurface
import ChainScript.Proofs.Strictness
import ChainScript.Proofs.StrictScope
import ChainScript.Proofs.HeapCopy
import ChainScript.Proofs.CopyPrint
import ChainScript.Proofs.CopyTree
import ChainScript.Proofs.Mirror
import ChainScript.Proofs.MirrorAccess
import ChainScript.Proofs.MirrorEval
import ChainScript.Proofs.MirrorCall
import ChainScript.Proofs.MirrorRun
import ChainScript.Proofs.Isolation
import ChainScript.Proofs.EntryPoints
import ChainScript.Proofs.FaultPlace
import ChainScript.Proofs.WeakStore
import ChainScript.Proofs.RecordWrite
import ChainScript.Proofs.SlotModel
import ChainScript.Proofs.ScopeLaws
import ChainScript.Proofs.BindingCourse
import ChainScript.Proofs.SuperAssign
import ChainScript.Proofs.Spelling
import ChainScript.Proofs.ReadAlike
import ChainScript.Proofs.Relocate
import ChainScript.Proofs.Reshape
import ChainScript.Proofs.Noise
import ChainScript.Proofs.FreshObject
import ChainScript.Proofs.NumberSlot
import ChainScript.Proofs.TreeBlame
import ChainScript.Proofs.Settings
import ChainScript.Proofs.Lineage
import ChainScript.Proofs.LeafPrint
import ChainScript.Proofs.PrintNesting
import ChainScript.Proofs.FixedReceiver
import ChainScript.Proofs.ReadBack
