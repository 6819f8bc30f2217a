import TahoeLafs.Basic
import TahoeLafs.PidText
import TahoeLafs.PidCheck
import TahoeLafs.PidWorld
import TahoeLafs.PidLock
import TahoeLafs.PidSteps
import TahoeLafs.PidAtomic
import TahoeLafs.PidRaises
import TahoeLafs.PyObject
import TahoeLafs.RangeMap
import TahoeLafs.Cbor
import TahoeLafs.CborFuel
import TahoeLafs.CborRoundTrip
import TahoeLafs.StorageClient
import TahoeLafs.ClientRequests
import TahoeLafs.ClientResponses
