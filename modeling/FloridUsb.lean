import FloridUsb.Session.Cache
import FloridUsb.Session.CacheBound
import FloridUsb.Session.Notify
import FloridUsb.Session.OneAtATime
import FloridUsb.Session.Pointers
import FloridUsb.Session.Retry
import FloridUsb.Session.Settling
import FloridUsb.Stack.Dispatch
import FloridUsb.Stack.IsrLaws
import FloridUsb.Stack.Noise
import FloridUsb.Stack.Numbering
import FloridUsb.Stack.Offered
import FloridUsb.Stack.ReceiveStream
import FloridUsb.Rpl.BipFifo
import FloridUsb.Rpl.Bitstream
import FloridUsb.Rpl.Deserializer
import FloridUsb.Rpl.Detection
import FloridUsb.Stack.Refusals
import FloridUsb.Stack.SessionRuns
import FloridUsb.Stack.Settling
import FloridUsb.Stack.TxContract
import FloridUsb.Stack.Unsolicited
import FloridUsb.EndToEnd.AtMostOnce
import FloridUsb.EndToEnd.StaleSuccess
import FloridUsb.EndToEnd.ExactlyOnce
